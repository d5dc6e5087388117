import RvPipeline.Pipeline.Progress

/-!
# Dynamic prediction

Which state of the predictor a branch is predicted with. The fetch stage reads
the predictor after the execution stage has trained it in the same cycle, and the
branch resolves two cycles later, so the branch in `ID/EX` was predicted before
the instruction in `EX/MEM` was executed.

* `Foretold`: the predictions in `IF/ID` and `ID/EX`.
* `mispredictions_eq`: if no branch directly follows a branch, a run mispredicts
  as often as a predictor that knows every earlier branch.
-/

namespace RvPipeline

open Isa

/-! ## Counting mispredictions -/

/-- How often a predictor is wrong that is asked for each of `branches` in turn, and
    trained with the outcome before the next one. -/
def missed (type : BranchPredictorType) (p : BranchPredictor) : List BranchRecord → ℕ
  | [] => 0
  | b :: branches => (mispredicted (p.predict b.pc type) b).toNat +
      missed type (p.update b.pc b.taken type) branches

theorem missed_append (type : BranchPredictorType) (p : BranchPredictor)
    (l l' : List BranchRecord) :
    missed type p (l ++ l') = missed type p l + missed type (trained type p l) l' := by
  induction l generalizing p with
  | nil => exact (Nat.zero_add _).symm
  | cons b l ih =>
    rw [List.cons_append, missed, missed, ih, Nat.add_assoc]
    rfl

/-- The word is a conditional branch. -/
def isBranchWord (x : Fetched) : Bool := (instrOf x.word).any Instr.isBranch

/-- No branch directly follows a branch. -/
def BranchesApart (path : List Fetched) : Prop :=
  path.IsChain fun u v => (isBranchWord u && isBranchWord v) = false

theorem observe_branches_of_not_branch {s : Arch} {x : Fetched} (h : isBranchWord x = false) :
    observeAt instrOf branchesOf s x = [] := by
  cases hi : instrOf x.word with
  | none => exact observeAt_none hi s
  | some i =>
    rw [isBranchWord, hi, Option.any_some] at h
    rw [observeAt_some hi, branchesOf_of_not_branch h]

/-! ## The predictions in the latches -/

/-- `IF/ID` is predicted with the present state of the predictor, `ID/EX` with the
    state after the instructions that have left the execution stage before the last one. -/
structure Foretold (m₀ : Machine) (g : Slots) (m : Machine) : Prop where
  fetched : m.pipeline.ifId.valid = true → m.pipeline.ifId.predictedNextPc =
    predictedPc m₀.cpu.config.branchPredictorType m.cpu.branchPredictor (ifWord m)
  decoded : ∀ x, g.ex = some x → m.pipeline.idEx.valid = true →
    m.pipeline.idEx.predictedNextPc = predictedPc m₀.cpu.config.branchPredictorType
      (trained m₀.cpu.config.branchPredictorType m₀.cpu.branchPredictor
        (observe instrOf branchesOf (archOf m₀.cpu) g.accessed)) x

section

variable {m₀ m m' : Machine} {t : Trace} {g : Slots}

theorem Foretold.start (h₀ : Initial m₀) : Foretold m₀ {} m₀ := by
  have hifId : m₀.pipeline.ifId.valid = false := by rw [h₀.pipeline]
  refine ⟨fun hv => ?_, fun x hx => ?_⟩
  · rw [hifId] at hv
    cases hv
  · cases hx

/-- A load-use stall leaves the predictor alone. -/
theorem resolvesBranch_of_stalls (h : Reached m₀ t g m) (hs : stalls m.pipeline = true) :
    resolvesBranch m.pipeline = false := by
  obtain ⟨-, u, hu, hfeed⟩ := stall_spec h.inv.latches hs
  rcases h.inv.latches.idEx.dest with ⟨-, hv⟩ | ⟨y, -, -, hv⟩ | ⟨x, i, hx, hi, -, hslot⟩
  · rw [resolvesBranch, hv, Bool.false_and]
  · rw [resolvesBranch, hv, Bool.false_and]
  · rw [hu] at hx
    cases hx
    rw [resolvesBranch, hslot.holds.control, control_branch]
    cases i with
    | branch => rw [feedsWord_of_not_load hi rfl] at hfeed; cases hfeed
    | _ => exact Bool.and_false _

/-- **One cycle** keeps the predictions in the latches. -/
theorem Foretold.cycle (hf : Foretold m₀ g m) (h : Reached m₀ t g m) (hrun : m.cpu.halted = false)
    (hcycle : runPipelineCycle m = .ok () m') : Foretold m₀ (g.next (issuedIn m)) m' := by
  obtain ⟨-, m₁, rfl, ha⟩ := h.inv.cycle_ok hcycle
  have hconfig : (cpuAfterEX m₁.cpu m₁.pipeline).config = m₀.cpu.config :=
    ha.config.trans h.inv.config
  refine ⟨fun hv => ?_, fun x hx hv => ?_⟩
  · cases hs : stalls m.pipeline with
    | true =>
      have hheld := held_of_stalls h.inv.committed h.inv.latches h.inv.front ha hrun hs
      have hword : ifWord (afterMEM m₁) = ifWord m := by rw [ifWord, hheld, ifWord]
      rw [ha.branchPredictor, resolvesBranch_of_stalls h hs, if_neg Bool.false_ne_true, hheld, hword]
      rw [hheld] at hv
      exact hf.fetched hv
    | false =>
      have hs₁ : stalls m₁.pipeline = false := by rw [ha.stalls_eq, hs]
      obtain ⟨hstop, hcan⟩ := fetch_of_valid hs₁ hv
      have hifId : (afterMEM m₁).pipeline.ifId =
          RvPipeline.fetched (cpuAfterEX m₁.cpu m₁.pipeline) := by
        change nextIfId _ _ = _
        rw [nextIfId, hstop, hs₁, if_neg Bool.false_ne_true, if_neg Bool.false_ne_true, if_pos hcan]
      obtain ⟨-, hpc, hw⟩ := fetched_fields (cpuAfterEX m₁.cpu m₁.pipeline)
      rw [ifWord, hifId, hpc, hw, fetched_predictedNextPc, hconfig]
      rfl
  · change issuedIn m = some x at hx
    have htakes : takes m.pipeline = true := by
      cases ht : takes m.pipeline with
      | true => rfl
      | false => rw [issuedIn, ht] at hx; cases hx
    have hvalid : m.pipeline.ifId.valid = true := by
      rw [takes, Bool.and_eq_true] at htakes
      exact htakes.2
    have hword : ifWord m = x := by
      rw [issuedIn, htakes] at hx
      exact Option.some.inj hx
    have hidEx : (afterMEM m₁).pipeline.idEx.predictedNextPc = m.pipeline.ifId.predictedNextPc := by
      rcases nextIdEx_cases (cpuAfterEX m₁.cpu m₁.pipeline) m₁.pipeline with hn | ⟨-, -, hn⟩
      · exact absurd hv (by rw [Bool.not_eq_true]; exact hn)
      · change (nextIdEx _ _).predictedNextPc = _
        rw [hn, ← ha.ifId_eq]
        rfl
    rw [hidEx, hf.fetched hvalid, hword, h.account.predictor]
    rfl

/-! ## Mispredictions -/

/-- The branch in `ID/EX` resolves as it would if it was predicted now, unless the
    instruction in front of it is a branch. -/
theorem Foretold.missed_ex (hf : Foretold m₀ g m) (h : Reached m₀ t g m)
    (hapart : BranchesApart g.taken) :
    (resolvesBranch m.pipeline && redirects m.pipeline).toNat =
      missed m₀.cpu.config.branchPredictorType
        (trained m₀.cpu.config.branchPredictorType m₀.cpu.branchPredictor
          (observe instrOf branchesOf (archOf m₀.cpu) g.executed))
        (exObserved branchesOf (archOf m₀.cpu) g) := by
  rcases h.inv.latches.idEx.dest with ⟨hx, hv⟩ | ⟨x, hx, hn, hv⟩ | ⟨x, i, hx, hi, hv, hs⟩
  · rw [exObserved_none hx, resolvesBranch, hv]
    rfl
  · rw [exObserved_skipped hx hn, resolvesBranch, hv]
    rfl
  · have hres : resolvesBranch m.pipeline = i.isBranch := by
      rw [resolvesBranch, hv, hs.holds.control, control_branch, Bool.true_and]
    rw [exObserved_instr hx hi, hres]
    cases i with
    | branch o rs1 rs2 offset =>
      -- the instruction in front is no branch, so the predictor has not changed since
      have hfront : observe instrOf branchesOf (archOf m₀.cpu) g.executed =
          observe instrOf branchesOf (archOf m₀.cpu) g.accessed := by
        rw [Slots.executed]
        cases hm : g.mem with
        | none => rw [Option.toList_none, List.append_nil]
        | some u =>
          have hux : (isBranchWord u && isBranchWord x) = false := by
            rw [Slots.taken, Slots.executed, hm, hx, BranchesApart, Option.toList_some,
              Option.toList_some, List.append_assoc, List.singleton_append,
              List.isChain_append_cons_cons] at hapart
            exact hapart.2.1
          have hbx : isBranchWord x = true := by
            rw [isBranchWord, hi]
            rfl
          rw [hbx, Bool.and_true] at hux
          rw [Option.toList_some, observe_snoc, observe_branches_of_not_branch hux, List.append_nil]
      have hpred := hf.decoded x hx hv
      rw [← hfront] at hpred
      simp only [predictedPc, hi, Instr.isBranch, Bool.true_and, Instr.immediate] at hpred
      rw [h.inv.latches.redirects_branch h.inv.committed hx hi hv hpred]
      rfl
    | _ => rfl

/-- **Mispredictions**, for every predictor: those of the branches executed, each
    predicted with all branches before it. -/
theorem Runs.mispredictions_eq (h₀ : Initial m₀) (h : Runs m₀ t m) :
    ∃ g, Reached m₀ t g m ∧ Foretold m₀ g m ∧ (BranchesApart g.taken →
      m.cpu.stats.branchMispredictions = m₀.cpu.stats.branchMispredictions +
        missed m₀.cpu.config.branchPredictorType m₀.cpu.branchPredictor
          (observe instrOf branchesOf (archOf m₀.cpu) g.executed)) := by
  induction h with
  | start => exact ⟨{}, .start h₀, .start h₀, fun _ => rfl⟩
  | @cycle t m m' _ hrun hcycle ih =>
    obtain ⟨g, hg, hf, hmis⟩ := ih
    refine ⟨_, hg.next hrun hcycle, hf.cycle hg hrun hcycle, fun hapart => ?_⟩
    have hapart' : BranchesApart g.taken := by
      rw [Slots.taken_next, BranchesApart, List.isChain_append] at hapart
      exact hapart.1
    have hex := hf.missed_ex hg hapart'
    obtain ⟨-, m₁, rfl, ha⟩ := hg.inv.cycle_ok hcycle
    rw [ha.branchMispredictions, observe_executed_next, missed_append, ← Nat.add_assoc,
      ← hmis hapart', hex]

/-- **The mispredictions of a halted run.** -/
theorem HaltsIn.mispredictions (h₀ : Initial m₀) (h : HaltsIn m₀ t m)
    (hapart : BranchesApart t.issued) :
    m.cpu.stats.branchMispredictions = m₀.cpu.stats.branchMispredictions +
      missed m₀.cpu.config.branchPredictorType m₀.cpu.branchPredictor
        (observe instrOf branchesOf (archOf m₀.cpu) t.issued) := by
  obtain ⟨g, hg, -, hmis⟩ := h.1.mispredictions_eq h₀
  rw [hg.account.issued] at hapart
  rw [hmis hapart, hg.executed_of_halted h.2]

end

end RvPipeline
