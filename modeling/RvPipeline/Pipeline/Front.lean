import RvPipeline.Pipeline.Step

/-!
# From the execution stage to the fetch

The second half of a cycle. The decode stage does one of three things with the
word in `IF/ID`: after a redirect it is dropped, during a load-use stall it is
held, otherwise it is taken, and then a new word is fetched unless a halt is on
its way (`front_of_fetch`).

`Inv.cycle` puts the halves together.
-/

namespace RvPipeline

open Isa

section

variable {s₀ : Arch} {c₀ : ℕ} {g : Slots} {m m₁ : Machine}

/-! ## Decisions are made on latches nobody has changed -/

theorem AfterMEM.redirects_eq (ha : AfterMEM s₀ g m m₁) :
    redirects m₁.pipeline = redirects m.pipeline := by
  obtain ⟨nextMemWb, hp, -⟩ := ha.latches
  rw [hp]
  rfl

theorem AfterMEM.stalls_eq (ha : AfterMEM s₀ g m m₁) : stalls m₁.pipeline = stalls m.pipeline := by
  obtain ⟨nextMemWb, hp, -⟩ := ha.latches
  rw [hp]
  rfl

theorem AfterMEM.takes_eq (ha : AfterMEM s₀ g m m₁) : takes m₁.pipeline = takes m.pipeline := by
  obtain ⟨nextMemWb, hp, -⟩ := ha.latches
  rw [hp]
  rfl

theorem AfterMEM.ifId_eq (ha : AfterMEM s₀ g m m₁) : m₁.pipeline.ifId = m.pipeline.ifId := by
  obtain ⟨nextMemWb, hp, -⟩ := ha.latches
  rw [hp]
  rfl

theorem AfterMEM.idEx_eq (ha : AfterMEM s₀ g m m₁) : m₁.pipeline.idEx = m.pipeline.idEx := by
  obtain ⟨nextMemWb, hp, -⟩ := ha.latches
  rw [hp]
  rfl

theorem AfterMEM.operands_eq (ha : AfterMEM s₀ g m m₁) :
    operandsOf m₁.pipeline = operandsOf m.pipeline := by
  obtain ⟨nextMemWb, hp, -⟩ := ha.latches
  rw [hp]
  rfl

theorem AfterMEM.haltIsInFlight_eq (ha : AfterMEM s₀ g m m₁) :
    haltIsInFlight m₁.pipeline = haltIsInFlight m.pipeline := by
  obtain ⟨nextMemWb, hp, -⟩ := ha.latches
  rw [hp]
  rfl

/-! ## The next latches -/

theorem ExMemOf.resolved {s : Arch} {x : Fetched} {i : Instr} {exMem : EXMEMRegister}
    (h : ExMemOf s x i exMem) (taken : Bool) (target : Word) :
    ExMemOf s x i { exMem with branchTaken := taken, branchTarget := target } :=
  ⟨h.valid, h.pc, h.instruction, h.rd, h.control, h.address, h.storeValue, h.value⟩

/-- The instruction in `ID/EX` goes on to `EX/MEM`. -/
theorem nextExMem_slot (hc : Committed s₀ g m) (hl : Latches s₀ g m) (ha : AfterMEM s₀ g m m₁) :
    Slot (fun x i => ExMemOf ((replay instrOf s₀ g.executed).goto x.pc) x i
      (nextExMem m₁.pipeline)) g.ex (nextExMem m₁.pipeline).valid := by
  have hidEx := ha.idEx_eq
  rcases hl.idEx.dest with ⟨hx, hv⟩ | ⟨x, hx, hn, hv⟩ | ⟨x, i, hx, hi, hv, hs⟩
  · have hnext : nextExMem m₁.pipeline = {} := by simp [nextExMem, hidEx, hv]
    rw [hx, hnext]
    exact .bubble
  · have hnext : nextExMem m₁.pipeline = {} := by simp [nextExMem, hidEx, hv]
    rw [hx, hnext]
    exact .skipped hn
  · have hex := exMemOf_nextExMemOf (s := (replay instrOf s₀ g.executed).goto x.pc) hi hs.holds rfl
      (hl.operands hc hx hi hs)
    have hnext : ExMemOf ((replay instrOf s₀ g.executed).goto x.pc) x i
        (nextExMem m₁.pipeline) := by
      unfold nextExMem
      rw [hidEx, ha.operands_eq, hv]
      cases m.pipeline.idEx.control.branch with
      | true => exact hex.resolved _ _
      | false =>
        cases m.pipeline.idEx.control.jump with
        | true => exact hex.resolved _ _
        | false => exact hex
    rw [hx, hnext.valid]
    exact .instr hi hnext

/-- The word the decode stage takes goes to `ID/EX`. -/
theorem nextIdEx_slot (hf : Front s₀ c₀ g m) (ha : AfterMEM s₀ g m m₁) (cpu : CPU)
    (hconfig : cpu.config = m.cpu.config) :
    Slot (fun x i => IdExSlot cpu x i (nextIdEx cpu m₁.pipeline))
      (issuedIn m) (nextIdEx cpu m₁.pipeline).valid := by
  unfold issuedIn nextIdEx
  rw [ha.takes_eq, ha.ifId_eq]
  cases ht : takes m.pipeline with
  | false => exact .bubble
  | true =>
    have hvalid : m.pipeline.ifId.valid = true := by
      simp only [takes, Bool.and_eq_true] at ht
      exact ht.2
    rw [Bool.true_and, if_pos rfl]
    cases hi : instrOf m.pipeline.ifId.instruction with
    | none =>
      rw [instrOf_eq_none.mp hi]
      exact .skipped hi
    | some i =>
      have hv : isValidInstruction (decodeInstruction m.pipeline.ifId.instruction) = true :=
        isValidInstruction_of_instrOf hi
      rw [hv]
      have hrec := (decodesTo_of_instrOf hi).record
      refine .instr hi ⟨idExOf_nextIdExOf cpu hi, ?_, ?_, ?_⟩
      · change cpu.readReg (decodeInstruction m.pipeline.ifId.instruction).rs1 = _
        rw [hrec]
        exact congrArg cpu.readReg (extractRs1_eq _)
      · change cpu.readReg (decodeInstruction m.pipeline.ifId.instruction).rs2 = _
        rw [hrec]
        exact congrArg cpu.readReg (extractRs2_eq _)
      · rw [hconfig]
        exact hf.predicted hvalid

end

/-! ## Fetching -/

theorem fetched_fields (cpu : CPU) : (fetched cpu).valid = true ∧ (fetched cpu).pc = cpu.pc ∧
    (fetched cpu).instruction = cpu.memory.word cpu.pc := by
  unfold fetched nextIfIdOf
  simp only
  split
  · split <;> exact ⟨rfl, rfl, rfl⟩
  · exact ⟨rfl, rfl, rfl⟩

/-- What the predictor `p` makes follow the word `x`. -/
def predictedPc (type : BranchPredictorType) (p : BranchPredictor) (x : Fetched) : Word :=
  match instrOf x.word with
  | some i => if i.isBranch && p.predict x.pc type then x.pc + i.immediate else x.pc + 4
  | none => x.pc + 4

/-- **The fetch stage** asks the predictor as it is in that cycle. -/
theorem fetched_predictedNextPc (cpu : CPU) : (fetched cpu).predictedNextPc =
    predictedPc cpu.config.branchPredictorType cpu.branchPredictor
      ⟨cpu.pc, cpu.memory.word cpu.pc⟩ := by
  unfold fetched nextIfIdOf predictedPc
  cases hi : instrOf (cpu.memory.word cpu.pc) with
  | none => simp [instrOf_eq_none.mp hi]
  | some i =>
    have hv : isValidInstruction (decodeInstruction (cpu.memory.word cpu.pc)) = true :=
      isValidInstruction_of_instrOf hi
    have hrec := (decodesTo_of_instrOf hi).record
    have hbranch : (decodeInstruction (cpu.memory.word cpu.pc)).control.branch = i.isBranch := by
      rw [hrec]
      exact control_branch i
    have himm : (decodeInstruction (cpu.memory.word cpu.pc)).immediate = i.immediate := by
      rw [hrec]
    simp only [hv, hbranch, himm, Bool.true_and, CPU.predictBranch]
    cases i.isBranch <;>
      cases cpu.branchPredictor.predict cpu.pc cpu.config.branchPredictorType <;> rfl

theorem predicts_predictedPc (type : BranchPredictorType) (p : BranchPredictor) (x : Fetched) :
    Predicts type x (predictedPc type p x) := by
  refine ⟨p.predict x.pc type, ?_, ?_, rfl⟩
  · rintro rfl
    rfl
  · rintro rfl
    rfl

/-- The fetch stage predicts one of the two places a branch can go to. -/
theorem fetched_predicts (cpu : CPU) : Predicts cpu.config.branchPredictorType
    ⟨cpu.pc, cpu.memory.word cpu.pc⟩ (fetched cpu).predictedNextPc := by
  rw [fetched_predictedNextPc]
  exact predicts_predictedPc _ _ _

section

variable {s₀ : Arch} {c₀ : ℕ} {g : Slots} {m : Machine} {cpu : CPU} {p : PipelineRegisters}

/-- Unless the word in `IF/ID` is held, the front is what the fetch stage makes of
    the program counter `cpu.pc` the stages before have left. -/
theorem front_of_fetch (hstall : stalls p = false)
    (hifId : m.pipeline.ifId = nextIfId cpu p) (hidEx : m.pipeline.idEx = nextIdEx cpu p)
    (hpc : m.cpu.pc = pcAfterIF cpu p) (hmem : m.cpu.memory = cpu.memory)
    (hconfig : m.cpu.config = cpu.config)
    (hpath : Prefetched instrOf s₀ g.taken)
    (hfront : cpu.pc = if (nextIdEx cpu p).valid then (nextIdEx cpu p).predictedNextPc
      else (replay instrOf s₀ g.taken).pc)
    (hhalt : (replay instrOf s₀ g.taken).halted = fetchStops cpu p)
    (hword : fetchStops cpu p = false → cpu.CanFetch →
      cpu.pc = (replay instrOf s₀ g.taken).pc → FetchedNext instrOf s₀ g.taken
        ⟨cpu.pc, cpu.memory.word cpu.pc⟩)
    (hquiet : fetchStops cpu p = false → cpu.CanFetch → g.ex = none →
      ∀ u ∈ g.taken.getLast?, (instrOf u.word).any Instr.isStore = false) :
    Front s₀ c₀ g m := by
  have hcan : m.cpu.CanFetch ↔ m.cpu.pc.toNat + 4 ≤ cpu.memory.length := by
    rw [CPU.CanFetch, hmem]
  cases hs : fetchStops cpu p with
  | true =>
    have hif : m.pipeline.ifId = {} := by rw [hifId, nextIfId, if_pos hs]
    have hv : m.pipeline.ifId.valid = false := by rw [hif]
    have hpc' : m.cpu.pc = cpu.pc := by rw [hpc, pcAfterIF, hs]; rfl
    refine ⟨hpath, ?_, ?_, ?_, ?_, ?_, ?_⟩
    · rw [frontPc, hv, hidEx, hpc']
      exact hfront
    · intro h; rw [hv] at h; cases h
    · intro h; rw [hv] at h; cases h
    · intro h; rw [hv] at h; cases h
    · intro _ h; rw [hv] at h; cases h
    · exact fun _ => Or.inr (Or.inl (by rw [hhalt, hs]))
  | false =>
    by_cases hc : cpu.CanFetch
    · have hif : m.pipeline.ifId = fetched cpu := by
        rw [hifId, nextIfId, hs, hstall, if_neg Bool.false_ne_true, if_neg Bool.false_ne_true, if_pos hc]
      have hpc' : m.cpu.pc = (fetched cpu).predictedNextPc := by
        rw [hpc, pcAfterIF, hs, hstall]
        simp [hc]
      obtain ⟨hv, hfpc, hfw⟩ := fetched_fields cpu
      have hword' : ifWord m = ⟨cpu.pc, cpu.memory.word cpu.pc⟩ := by
        rw [ifWord, hif, hfpc, hfw]
      refine ⟨hpath, ?_, ?_, ?_, ?_, ?_, ?_⟩
      · rw [frontPc, hif, hv, if_pos rfl, hfpc, hidEx]
        exact hfront
      · intro _
        rw [hword', hconfig, hif]
        exact fetched_predicts cpu
      · intro _
        rw [hpc', hif]
      · intro _ hon
        rw [hword']
        refine hword hs hc ?_
        rw [hfront]
        unfold OnPath at hon
        rw [hidEx] at hon
        by_cases hvx : (nextIdEx cpu p).valid = true
        · rw [if_pos hvx]
          exact hon hvx
        · rw [if_neg hvx]
      · exact fun hx _ => hquiet hs hc hx
      · intro h
        rw [hif, hv] at h
        cases h
    · have hif : m.pipeline.ifId = {} := by
        rw [hifId, nextIfId, hs, hstall, if_neg Bool.false_ne_true, if_neg Bool.false_ne_true, if_neg hc]
      have hv : m.pipeline.ifId.valid = false := by rw [hif]
      have hpc' : m.cpu.pc = cpu.pc := by
        rw [hpc, pcAfterIF, hs, hstall]
        simp [hc]
      refine ⟨hpath, ?_, ?_, ?_, ?_, ?_, ?_⟩
      · rw [frontPc, hv, hidEx, hpc']
        exact hfront
      · intro h; rw [hv] at h; cases h
      · intro h; rw [hv] at h; cases h
      · intro h; rw [hv] at h; cases h
      · intro _ h; rw [hv] at h; cases h
      · intro _
        refine Or.inr (Or.inr ?_)
        rw [hcan, hpc']
        exact hc

end

/-! ## The three things the decode stage does -/

section

variable {s₀ : Arch} {c₀ : ℕ} {g : Slots} {m m₁ : Machine}

/-- A redirect goes where the branch or jump in `ID/EX` goes. -/
theorem redirect_spec (hc : Committed s₀ g m) (hl : Latches s₀ g m)
    (hr : redirects m.pipeline = true) :
    ∃ x i, g.ex = some x ∧ instrOf x.word = some i ∧ (i.isBranch = true ∨ i.isJump = true) ∧
      exTarget m.pipeline.idEx (operandsOf m.pipeline) = (replay instrOf s₀ g.taken).pc ∧
      Predicts m.cpu.config.branchPredictorType x m.pipeline.idEx.predictedNextPc ∧
      m.pipeline.idEx.predictedNextPc ≠ (replay instrOf s₀ g.taken).pc := by
  have hr' := hr
  rw [hl.redirects_eq hc] at hr'
  simp only [Bool.and_eq_true, bne_iff_ne] at hr'
  rcases hl.idEx.dest with ⟨-, hv⟩ | ⟨y, -, -, hv⟩ | ⟨x, i, hx, hi, hv, hs⟩
  · rw [hv] at hr'; cases hr'.1
  · rw [hv] at hr'; cases hr'.1
  · have hflow : i.isBranch = true ∨ i.isJump = true := by
      rw [redirects, hs.holds.control, control_branch, control_jump] at hr
      simp only [Bool.and_eq_true, Bool.or_eq_true] at hr
      exact hr.1.2
    refine ⟨x, i, hx, hi, hflow, ?_, hs.predicted, hr'.2⟩
    rw [exTarget_eq (s := (replay instrOf s₀ g.executed).goto x.pc) hi hs.holds rfl
      (hl.operands hc hx hi hs) hflow, Slots.taken, hx, Option.toList_some, replay_instr hi,
      Arch.exec_pc]

/-- After a wrong prediction, what was fetched may be dropped. -/
theorem mayRefetch_of_redirect {type : BranchPredictorType} {s : Arch} {x : Fetched} {i : Instr}
    {pred : Word} (hi : instrOf x.word = some i) (hflow : i.isBranch = true ∨ i.isJump = true)
    (hp : Predicts type x pred) (hne : pred ≠ (s.goto x.pc).nextPc i) :
    mayRefetch instrOf x ((s.goto x.pc).nextPc i) = true := by
  rw [mayRefetch, hi, Option.any_some]
  obtain ⟨taken, -, -, hpred⟩ := hp
  rw [hi] at hpred
  cases i with
  | branch o rs1 rs2 offset =>
    have haway : branchOffset offset ≠ 4 := by
      intro h4
      apply hne
      simp only [Arch.nextPc, Instr.immediate, h4] at hpred ⊢
      rw [hpred]
      simp
    exact Bool.or_eq_true_iff.mpr (Or.inr (bne_iff_ne.mpr haway))
  | jal rd offset =>
    simp only [Instr.isBranch, Bool.false_and, Bool.false_eq_true, if_false] at hpred
    rw [hpred] at hne
    exact Bool.or_eq_true_iff.mpr (Or.inl (bne_iff_ne.mpr hne.symm))
  | jalr rd rs1 imm =>
    simp only [Instr.isBranch, Bool.false_and, Bool.false_eq_true, if_false] at hpred
    rw [hpred] at hne
    exact Bool.or_eq_true_iff.mpr (Or.inl (bne_iff_ne.mpr hne.symm))
  | _ => rcases hflow with h | h <;> cases h

theorem taken_next_none (g : Slots) : (g.next none).taken = g.taken := by
  rw [Slots.taken_next, Option.toList_none, List.append_nil]

/-- The program counter when the fetch stage runs. -/
theorem AfterMEM.pcAfterEX (ha : AfterMEM s₀ g m m₁) :
    (cpuAfterEX m₁.cpu m₁.pipeline).pc =
      if redirects m.pipeline then exTarget m.pipeline.idEx (operandsOf m.pipeline)
      else m.cpu.pc := by
  rw [← ha.redirects_eq, ← ha.idEx_eq, ← ha.operands_eq, ← ha.pc]
  rfl

/-- A bubble never holds a halt. -/
theorem nextIdEx_halt (cpu : CPU) (p : PipelineRegisters) :
    ((nextIdEx cpu p).valid && (nextIdEx cpu p).control.halt) = (nextIdEx cpu p).control.halt := by
  unfold nextIdEx
  split <;> rfl

/-- The fetch stage stops if the words taken now contain a halt. -/
theorem halted_next (hc : Committed s₀ g m) (hl : Latches s₀ g m) (hf : Front s₀ c₀ g m)
    (ha : AfterMEM s₀ g m m₁) (hrun : m.cpu.halted = false) :
    (replay instrOf s₀ (g.next (issuedIn m)).taken).halted =
      fetchStops (cpuAfterEX m₁.cpu m₁.pipeline) m₁.pipeline := by
  have hslot := nextIdEx_slot hf ha (cpuAfterEX m₁.cpu m₁.pipeline) ha.config
  rw [Slots.taken_next, replay_halted_slot hslot (fun _ _ h => h.holds.control), nextIdEx_halt,
    hl.halted_taken hc, hrun, Bool.false_or, fetchStops, ha.haltIsInFlight_eq, Bool.or_comm]

/-- After a redirect the word in `IF/ID` is dropped, and the right one is fetched. -/
theorem front_redirect (hc : Committed s₀ g m) (hl : Latches s₀ g m) (hf : Front s₀ c₀ g m)
    (ha : AfterMEM s₀ g m m₁) (hrun : m.cpu.halted = false) (hr : redirects m.pipeline = true) :
    Front s₀ c₀ (g.next (issuedIn m)) (afterMEM m₁) := by
  obtain ⟨x, i, hx, hi, hflow, htgt, hpred, hne⟩ := redirect_spec hc hl hr
  have htakes : takes m.pipeline = false := by rw [takes, hr]; rfl
  have hstall : stalls m₁.pipeline = false := by rw [ha.stalls_eq, stalls, hr]; rfl
  have hissued : issuedIn m = none := by rw [issuedIn, htakes]; rfl
  have hnext : nextIdEx (cpuAfterEX m₁.cpu m₁.pipeline) m₁.pipeline = {} := by
    rw [nextIdEx, ha.takes_eq, htakes]
    rfl
  have hpc : (cpuAfterEX m₁.cpu m₁.pipeline).pc = (replay instrOf s₀ g.taken).pc := by
    rw [ha.pcAfterEX, hr, if_pos rfl, htgt]
  have hhalt := halted_next hc hl hf ha hrun
  have htaken : g.taken = g.executed ++ [x] := by rw [Slots.taken, hx, Option.toList_some]
  have hsilent : i.isStore = false := (Instr.plain_of_flow hflow).2.1
  have hmem : (cpuAfterEX m₁.cpu m₁.pipeline).memory = (replay instrOf s₀ g.taken).mem := by
    rw [htaken, replay_instr hi, Arch.exec_mem, Arch.memAfter_of_not_store hsilent]
    exact ha.mem
  rw [hissued] at hhalt ⊢
  rw [taken_next_none] at hhalt
  refine front_of_fetch hstall rfl rfl rfl rfl rfl ?_ ?_ ?_ ?_ ?_
  · rw [taken_next_none]
    exact hf.path
  · rw [taken_next_none, hnext, hpc]
    rfl
  · rw [taken_next_none, hhalt]
  · intro hs hcan _
    rw [taken_next_none]
    refine ⟨⟨?_, ?_⟩, hpc, Or.inr ⟨?_, x, ?_, ?_⟩⟩
    · rw [hhalt, hs]
    · rw [Arch.Fetchable, ← hpc, ← hmem]
      exact hcan
    · rw [Arch.fetch, ← hpc, ← hmem]
    · rw [htaken, List.getLast?_concat]
      rfl
    · rw [hpc, htaken, replay_instr hi, Arch.exec_pc]
      refine mayRefetch_of_redirect hi hflow hpred ?_
      rw [htaken, replay_instr hi, Arch.exec_pc] at hne
      exact hne
  · intro _ _ _ u hu
    rw [taken_next_none, htaken, List.getLast?_concat] at hu
    cases hu
    rw [hi]
    exact hsilent

/-- A load-use stall is no redirect. -/
theorem redirects_of_stalls {p : PipelineRegisters} (hs : stalls p = true) :
    redirects p = false := by
  rw [stalls, Bool.and_eq_true, Bool.not_eq_true'] at hs
  exact hs.1

/-- The load in `ID/EX` and the word in `IF/ID` that cause a stall. -/
theorem stall_spec (hl : Latches s₀ g m) (hs : stalls m.pipeline = true) :
    m.pipeline.ifId.valid = true ∧ ∃ u, g.ex = some u ∧ feedsWord u (ifWord m) = true := by
  rw [stalls, hl.stall_eq, Bool.and_eq_true, Bool.and_eq_true, Option.any_eq_true] at hs
  exact hs.2

/-- No word is taken in a cycle with a load-use stall. -/
theorem issuedIn_of_stalls (hs : stalls m.pipeline = true) : issuedIn m = none := by
  rw [issuedIn, takes, hs, Bool.not_true, Bool.and_false, Bool.false_and]
  rfl

/-- A load-use stall and a halt in flight exclude each other. -/
theorem not_stopped_of_stalls (hc : Committed s₀ g m) (hl : Latches s₀ g m) (hf : Front s₀ c₀ g m)
    (ha : AfterMEM s₀ g m m₁) (hrun : m.cpu.halted = false) (hs : stalls m.pipeline = true) :
    fetchStops (cpuAfterEX m₁.cpu m₁.pipeline) m₁.pipeline = false := by
  have hon : OnPath s₀ g m := (hl.onPath_iff hc).mpr (redirects_of_stalls hs)
  rw [← halted_next hc hl hf ha hrun, issuedIn_of_stalls hs, taken_next_none]
  exact (hf.next (stall_spec hl hs).1 hon).running.1

/-- During a load-use stall the word in `IF/ID` is held. -/
theorem held_of_stalls (hc : Committed s₀ g m) (hl : Latches s₀ g m) (hf : Front s₀ c₀ g m)
    (ha : AfterMEM s₀ g m m₁) (hrun : m.cpu.halted = false) (hs : stalls m.pipeline = true) :
    (afterMEM m₁).pipeline.ifId = m.pipeline.ifId := by
  change nextIfId _ _ = _
  rw [nextIfId, not_stopped_of_stalls hc hl hf ha hrun hs, ha.stalls_eq, hs, if_neg Bool.false_ne_true,
    if_pos rfl, ha.ifId_eq]

/-- The front after a load-use stall. -/
theorem front_stall (hc : Committed s₀ g m) (hl : Latches s₀ g m) (hf : Front s₀ c₀ g m)
    (ha : AfterMEM s₀ g m m₁) (hrun : m.cpu.halted = false) (hs : stalls m.pipeline = true) :
    Front s₀ c₀ (g.next (issuedIn m)) (afterMEM m₁) := by
  have hr := redirects_of_stalls hs
  obtain ⟨hvalid, u, hx, hfeed⟩ := stall_spec hl hs
  have htakes : takes m.pipeline = false := by rw [takes, hr, hs]; rfl
  have hnext : nextIdEx (cpuAfterEX m₁.cpu m₁.pipeline) m₁.pipeline = {} := by
    rw [nextIdEx, ha.takes_eq, htakes]
    rfl
  have hfetched := hf.next hvalid ((hl.onPath_iff hc).mpr hr)
  have hstop := not_stopped_of_stalls hc hl hf ha hrun hs
  have hifId := held_of_stalls hc hl hf ha hrun hs
  have hpc : (afterMEM m₁).cpu.pc = m.cpu.pc := by
    change pcAfterIF _ _ = _
    rw [pcAfterIF, hstop, ha.stalls_eq, hs, ha.pcAfterEX, hr]
    rfl
  have hidEx : (afterMEM m₁).pipeline.idEx = {} := hnext
  have hword : ifWord (afterMEM m₁) = ifWord m := by rw [ifWord, hifId, ifWord]
  have hconfig : (afterMEM m₁).cpu.config = m.cpu.config := ha.config
  rw [issuedIn_of_stalls hs]
  refine ⟨?_, ?_, ?_, ?_, ?_, ?_, ?_⟩
  · rw [taken_next_none]
    exact hf.path
  · rw [taken_next_none, hidEx, frontPc, hifId, hvalid, if_pos rfl]
    exact hfetched.pc
  · intro _
    rw [hconfig, hword, hifId]
    exact hf.predicted hvalid
  · intro _
    rw [hpc, hifId]
    exact hf.ahead hvalid
  · intro _ _
    rw [taken_next_none, hword]
    exact hfetched
  · intro _ _ v hv
    -- the last word taken is the load
    rw [taken_next_none, Slots.taken, hx, Option.toList_some, List.getLast?_concat] at hv
    cases hv
    rw [feedsWord] at hfeed
    cases hi : instrOf u.word with
    | none => rfl
    | some i =>
      rw [hi] at hfeed
      cases i with
      | store => cases hj : instrOf (ifWord m).word <;> rw [hj] at hfeed <;> cases hfeed
      | _ => rfl
  · intro hv
    rw [hifId, hvalid] at hv
    cases hv

/-- Neither `IF/ID` nor the branch in `ID/EX` keeps this cycle busy. -/
def idles (p : PipelineRegisters) : Bool := !redirects p && !p.ifId.valid

theorem idles_iff {p : PipelineRegisters} :
    idles p = true ↔ redirects p = false ∧ p.ifId.valid = false := by
  simp [idles]

theorem stalls_of_idles (hl : Latches s₀ g m) (hi : idles m.pipeline = true) :
    stalls m.pipeline = false := by
  rw [stalls, hl.stall_eq, (idles_iff.mp hi).2, Bool.false_and, Bool.and_false]

theorem issuedIn_of_idles (hi : idles m.pipeline = true) : issuedIn m = none := by
  rw [issuedIn, takes, (idles_iff.mp hi).2, Bool.and_false]
  rfl

/-- With nothing in `IF/ID`, only the very first fetch can succeed. -/
theorem first_of_idles (hc : Committed s₀ g m) (hl : Latches s₀ g m) (hf : Front s₀ c₀ g m)
    (ha : AfterMEM s₀ g m m₁) (hrun : m.cpu.halted = false) (hi : idles m.pipeline = true)
    (hs : fetchStops (cpuAfterEX m₁.cpu m₁.pipeline) m₁.pipeline = false)
    (hcan : (cpuAfterEX m₁.cpu m₁.pipeline).CanFetch) : g.taken = [] := by
  obtain ⟨hr, hv⟩ := idles_iff.mp hi
  have hpc : (cpuAfterEX m₁.cpu m₁.pipeline).pc = m.cpu.pc := by
    rw [ha.pcAfterEX, hr]
    rfl
  have hlen : m.cpu.memory.length = (cpuAfterEX m₁.cpu m₁.pipeline).memory.length := by
    change _ = m₁.cpu.memory.length
    rw [ha.mem, hc.mem, replay_mem_length, replay_mem_length]
  have hhalt := halted_next hc hl hf ha hrun
  rcases hf.idle hv with h | h | h
  · exact h.1
  · rw [issuedIn_of_idles hi, taken_next_none, h, hs] at hhalt
    cases hhalt
  · rw [CPU.CanFetch, hpc, ← hlen] at hcan
    exact absurd hcan h

/-- With nothing in `IF/ID`, the next word is fetched if there is one. -/
theorem front_idle (hc : Committed s₀ g m) (hl : Latches s₀ g m) (hf : Front s₀ c₀ g m)
    (ha : AfterMEM s₀ g m m₁) (hrun : m.cpu.halted = false) (hi : idles m.pipeline = true) :
    Front s₀ c₀ (g.next (issuedIn m)) (afterMEM m₁) := by
  obtain ⟨hr, hv⟩ := idles_iff.mp hi
  have htakes : takes m.pipeline = false := by rw [takes, hv, Bool.and_false]
  have hstall : stalls m₁.pipeline = false := by rw [ha.stalls_eq, stalls_of_idles hl hi]
  have hnext : nextIdEx (cpuAfterEX m₁.cpu m₁.pipeline) m₁.pipeline = {} := by
    rw [nextIdEx, ha.takes_eq, htakes]
    rfl
  have hon : OnPath s₀ g m := (hl.onPath_iff hc).mpr hr
  have hpc : (cpuAfterEX m₁.cpu m₁.pipeline).pc = (replay instrOf s₀ g.taken).pc := by
    have hfront := hf.pc
    rw [frontPc, hv, if_neg Bool.false_ne_true] at hfront
    rw [ha.pcAfterEX, hr, if_neg Bool.false_ne_true, hfront]
    by_cases hvx : m.pipeline.idEx.valid = true
    · rw [if_pos hvx, hon hvx]
    · rw [if_neg hvx]
  have hhalt := halted_next hc hl hf ha hrun
  rw [issuedIn_of_idles hi] at hhalt ⊢
  rw [taken_next_none] at hhalt
  refine front_of_fetch hstall rfl rfl rfl rfl rfl ?_ ?_ ?_ ?_ ?_
  · rw [taken_next_none]
    exact hf.path
  · rw [taken_next_none, hnext, hpc]
    rfl
  · rw [taken_next_none, hhalt]
  · intro hs hcan _
    have hnil := first_of_idles hc hl hf ha hrun hi hs hcan
    have hexec : g.executed = [] := by
      rw [Slots.taken, List.append_eq_nil_iff] at hnil
      exact hnil.1
    rw [taken_next_none]
    refine ⟨⟨?_, ?_⟩, hpc, Or.inl ⟨?_, ?_⟩⟩
    · rw [hhalt, hs]
    · rw [Arch.Fetchable, ← hpc, hnil, replay_nil, ← replay_mem_length instrOf s₀ g.executed, ← ha.mem]
      exact hcan
    · rw [hnil, staleMem]
      change Mem.word m₁.cpu.memory _ = _
      rw [ha.mem, hexec]
      rfl
    · intro last hlast
      rw [hnil] at hlast
      cases hlast
  · intro hs hcan _ u hu
    rw [taken_next_none, first_of_idles hc hl hf ha hrun hi hs hcan] at hu
    cases hu

/-- Otherwise the word in `IF/ID` is taken, and the fetch goes on where it leads. -/
theorem front_take (hc : Committed s₀ g m) (hl : Latches s₀ g m) (hf : Front s₀ c₀ g m)
    (ha : AfterMEM s₀ g m m₁) (hrun : m.cpu.halted = false) (hr : redirects m.pipeline = false)
    (hs : stalls m.pipeline = false) (hv : m.pipeline.ifId.valid = true) :
    Front s₀ c₀ (g.next (issuedIn m)) (afterMEM m₁) := by
  have htakes : takes m.pipeline = true := by rw [takes, hr, hs, hv]; rfl
  have hstall : stalls m₁.pipeline = false := by rw [ha.stalls_eq, hs]
  have hissued : issuedIn m = some (ifWord m) := by rw [issuedIn, htakes]; rfl
  have hfetched := hf.next hv ((hl.onPath_iff hc).mpr hr)
  have hpred := hf.predicted hv
  have hpc : (cpuAfterEX m₁.cpu m₁.pipeline).pc = m.pipeline.ifId.predictedNextPc := by
    rw [ha.pcAfterEX, hr, if_neg Bool.false_ne_true]
    exact hf.ahead hv
  have hhalt := halted_next hc hl hf ha hrun
  rw [hissued] at hhalt ⊢
  have htaken : (g.next (some (ifWord m))).taken = g.taken ++ [ifWord m] := rfl
  refine front_of_fetch hstall rfl rfl rfl rfl rfl ?_ ?_ hhalt ?_ ?_
  · rw [htaken]
    exact .snoc hf.path hfetched
  · rw [hpc, nextIdEx, ha.takes_eq, htakes, ha.ifId_eq, Bool.true_and]
    cases hi : instrOf m.pipeline.ifId.instruction with
    | none =>
      have hword : instrOf (ifWord m).word = none := hi
      rw [instrOf_eq_none.mp hi, htaken, replay_skipped hword,
        hpred.of_not_branch (by rw [hword]; rfl)]
      rfl
    | some i =>
      have hvalid : isValidInstruction (decodeInstruction m.pipeline.ifId.instruction) = true :=
        isValidInstruction_of_instrOf hi
      rw [hvalid, if_pos rfl]
      exact (if_pos rfl).symm
  · intro hs' hcan hpath
    refine ⟨⟨?_, ?_⟩, hpath, Or.inl ⟨?_, ?_⟩⟩
    · rw [hhalt, hs']
    · rw [Arch.Fetchable, ← hpath, replay_mem_length,
        ← replay_mem_length instrOf s₀ g.executed, ← ha.mem]
      exact hcan
    · -- memory is as it was before the last two words taken
      change m₁.cpu.memory.word _ = _
      rw [ha.mem, staleMem, htaken, List.dropLast_concat]
      cases hx : g.ex with
      | some x =>
        rw [Slots.taken, hx, Option.toList_some, List.dropLast_concat]
      | none =>
        have hquiet := hf.quiet hx hv
        have hexec : g.taken = g.executed := by
          rw [Slots.taken, hx, Option.toList_none, List.append_nil]
        rw [hexec] at hquiet ⊢
        rw [replay_mem_dropLast hquiet]
    · intro last hlast
      rw [htaken, List.getLast?_concat] at hlast
      cases hlast
      rw [mustRefetch]
      cases hi : instrOf (ifWord m).word with
      | none => rfl
      | some i =>
        rw [Option.any_some, hpc]
        cases hj : i.isJump with
        | false => rfl
        | true =>
          have hb : i.isBranch = false := by cases i <;> first | rfl | cases hj
          rw [hpred.of_not_branch (by rw [hi]; exact hb)]
          simp
  · intro _ _ hx
    cases hx

/-- **The front** after a cycle. -/
theorem Front.cycle (hc : Committed s₀ g m) (hl : Latches s₀ g m) (hf : Front s₀ c₀ g m)
    (ha : AfterMEM s₀ g m m₁) (hrun : m.cpu.halted = false) :
    Front s₀ c₀ (g.next (issuedIn m)) (afterMEM m₁) := by
  cases hr : redirects m.pipeline with
  | true => exact front_redirect hc hl hf ha hrun hr
  | false =>
    cases hs : stalls m.pipeline with
    | true => exact front_stall hc hl hf ha hrun hs
    | false =>
      cases hv : m.pipeline.ifId.valid with
      | true => exact front_take hc hl hf ha hrun hr hs hv
      | false => exact front_idle hc hl hf ha hrun (idles_iff.mpr ⟨hr, hv⟩)

/-- **The latches** after a cycle. -/
theorem Latches.cycle (hc : Committed s₀ g m) (hl : Latches s₀ g m) (hf : Front s₀ c₀ g m)
    (ha : AfterMEM s₀ g m m₁) : Latches s₀ (g.next (issuedIn m)) (afterMEM m₁) := by
  obtain ⟨nextMemWb, hp, hslot⟩ := ha.latches
  refine ⟨?_, nextExMem_slot hc hl ha, ?_, ?_⟩
  · change Slot (fun x i => MemWbOf _ x i m₁.pipeline.nextMemWb) g.mem
      m₁.pipeline.nextMemWb.valid
    rw [hp]
    exact hslot
  · exact nextIdEx_slot hf ha (afterMEM m₁).cpu ha.config
  · intro x i y j hx hi hy hj
    by_contra hfeed
    rw [Bool.not_eq_false] at hfeed
    change issuedIn m = some y at hy
    unfold issuedIn at hy
    cases ht : takes m.pipeline with
    | false => rw [ht] at hy; cases hy
    | true =>
      rw [ht] at hy
      cases hy
      have hstall : stalls m.pipeline = false ∧ redirects m.pipeline = false ∧
          m.pipeline.ifId.valid = true := by
        simp only [takes, Bool.and_eq_true, Bool.not_eq_true'] at ht
        exact ⟨ht.1.2, ht.1.1, ht.2⟩
      have hx' : g.ex = some x := hx
      rw [stalls, hstall.2.1, hl.stall_eq, hstall.2.2, hx', Option.any_some] at hstall
      have : feedsWord x (ifWord m) = true := by
        rw [feedsWord, hi, ifWord, hj]
        exact hfeed
      rw [this] at hstall
      cases hstall.1

end

/-! ## The whole cycle -/

/-- **One cycle keeps the invariant.** -/
theorem Inv.cycle {m₀ m m₁ : Machine} {g : Slots} (h : Inv m₀ g m)
    (ha : AfterMEM (archOf m₀.cpu) g m m₁) (hrun : m.cpu.halted = false) :
    Inv m₀ (g.next (issuedIn m)) (afterMEM m₁) :=
  ⟨ha.config.trans h.config, ⟨ha.regs, ha.halted, ha.instret, ha.mem⟩,
    h.latches.cycle h.committed h.front ha, h.front.cycle h.committed h.latches ha hrun⟩

end RvPipeline
