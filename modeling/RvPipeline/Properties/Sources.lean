import RvPipeline.Properties.Bypass

/-!
# The sources of an instruction

Which registers an instruction depends on is written down twice: in the `switch` of
`get_source_registers`, and in the control signals that select the inputs of
`stage_EX`.

* `getSourceRegisters_uses`: the `switch` lists what the control signals select.
* `Alike`: two machines that differ at most in operands nobody selects. A cycle of
  both has the same outcome (`lockstep_runPipelineCycle`).
* `sources_agree`: both for every word, so an operand that is not listed has no
  influence.
-/

namespace RvPipeline

open Isa State

/-! ## The two lists -/

/-- Under these control signals `stage_EX` compares `rs1` or feeds it to the ALU. -/
def consumesRs1 (control : ControlSignals) : Bool :=
  control.branch || (control.aluOp != .none && !control.aluSrcPc)

/-- Under these control signals `stage_EX` compares `rs2`, feeds it to the ALU or hands
    it on to be stored. -/
def consumesRs2 (control : ControlSignals) : Bool :=
  control.branch || control.memWrite || (control.aluOp != .none && !control.aluSrcImm)

/-- Dropping `x0` from the sources. -/
theorem uses_dropZero (sources : SourceRegisters) :
    (let sources := if sources.rs1 = 0#5 then { sources with usesRs1 := false } else sources
      if sources.rs2 = 0#5 then { sources with usesRs2 := false } else sources).usesRs1 =
        (sources.usesRs1 && sources.rs1 != 0#5) ∧
      (let sources := if sources.rs1 = 0#5 then { sources with usesRs1 := false } else sources
      if sources.rs2 = 0#5 then { sources with usesRs2 := false } else sources).usesRs2 =
        (sources.usesRs2 && sources.rs2 != 0#5) := by
  by_cases h1 : sources.rs1 = 0#5 <;> by_cases h2 : sources.rs2 = 0#5 <;> simp [h1, h2]

/-- **The `switch`** lists the registers that the control signals select. -/
theorem getSourceRegisters_uses {d : DecodedInstruction} {i : Instr} (hkind : d.kind = i.kind)
    (hcontrol : d.control = i.control) :
    (getSourceRegisters d).usesRs1 = (consumesRs1 d.control && d.rs1 != 0#5) ∧
      (getSourceRegisters d).usesRs2 = (consumesRs2 d.control && d.rs2 != 0#5) := by
  unfold getSourceRegisters
  rw [(uses_dropZero _).1, (uses_dropZero _).2, hkind, hcontrol]
  cases i with
  | op o => cases o <;> exact ⟨rfl, rfl⟩
  | opImm o => cases o <;> exact ⟨rfl, rfl⟩
  | shift o => cases o <;> exact ⟨rfl, rfl⟩
  | load o => cases o <;> exact ⟨rfl, rfl⟩
  | store o => cases o <;> exact ⟨rfl, rfl⟩
  | branch o => cases o <;> exact ⟨rfl, rfl⟩
  | _ => exact ⟨rfl, rfl⟩

/-! ## Latches that differ in what nobody selects -/

/-- The latches differ at most in operands that `stage_EX` does not consume. -/
def IDEXRegister.Alike (l l' : IDEXRegister) : Prop :=
  ∃ v₁ v₂, l' = { l with rs1Value := v₁, rs2Value := v₂ } ∧
    (consumesRs1 l.control = true → v₁ = l.rs1Value) ∧
    (consumesRs2 l.control = true → v₂ = l.rs2Value)

/-- The machines differ at most in operands that nobody consumes. -/
structure Alike (m m' : Machine) : Prop where
  /-- Registers, memory, write log, `pc`, halt flag, statistics and predictor. -/
  cpu : m'.cpu = m.cpu
  ifId : m'.pipeline.ifId = m.pipeline.ifId
  idEx : m.pipeline.idEx.Alike m'.pipeline.idEx
  /-- Among others the address of an access, the outcome of a branch and its target,
      and the value of a store. -/
  exMem : m.pipeline.exMem.Alike m'.pipeline.exMem
  /-- The register that is written back, and its value. -/
  memWb : m'.pipeline.memWb = m.pipeline.memWb
  nextMemWb : m'.pipeline.nextMemWb = m.pipeline.nextMemWb

theorem sameAccess_alike : SameAccess Alike where
  memory h := congrArg CPU.memory h.cpu
  exMem h := h.exMem
  store h _ _ := { h with cpu := by rw [h.cpu] }
  latch h _ := { h with nextMemWb := rfl }

/-! ## The stages behind `stage_MEM` -/

/-- An operand that is not consumed reaches nothing but the value to store. -/
theorem nextExMemOf_congr {l : IDEXRegister} {o o' : ForwardedOperands} (v₁ v₂ : Word)
    (h1 : consumesRs1 l.control = true → o'.rs1Value = o.rs1Value)
    (h2 : consumesRs2 l.control = true → o'.rs2Value = o.rs2Value) :
    nextExMemOf { l with rs1Value := v₁, rs2Value := v₂ } o' =
      { nextExMemOf l o with storeValue := o'.rs2Value } := by
  unfold nextExMemOf
  dsimp only
  by_cases hop : l.control.aluOp = .none
  · rw [hop]
    rfl
  · have hlhs : (if l.control.aluSrcPc = true then l.pc else o'.rs1Value) =
        if l.control.aluSrcPc = true then l.pc else o.rs1Value := by
      cases hpc : l.control.aluSrcPc with
      | true => rfl
      | false => exact h1 (by simp [consumesRs1, hop, hpc])
    have hrhs : (if l.control.aluSrcImm = true then l.immediate else o'.rs2Value) =
        if l.control.aluSrcImm = true then l.immediate else o.rs2Value := by
      cases himm : l.control.aluSrcImm with
      | true => rfl
      | false => exact h2 (by simp [consumesRs2, hop, himm])
    rw [hlhs, hrhs]

section

variable {m m' : Machine} (h : Alike m m')

include h

/-- Forwarding delivers the same for what is consumed. -/
theorem Alike.operandsOf :
    (consumesRs1 m.pipeline.idEx.control = true →
      (RvPipeline.operandsOf m'.pipeline).rs1Value = (RvPipeline.operandsOf m.pipeline).rs1Value) ∧
    (consumesRs2 m.pipeline.idEx.control = true →
      (RvPipeline.operandsOf m'.pipeline).rs2Value = (RvPipeline.operandsOf m.pipeline).rs2Value) := by
  obtain ⟨v₁, v₂, hidEx, h1, h2⟩ := h.idEx
  obtain ⟨v, hexMem, -⟩ := h.exMem
  have hstore : ∀ r x, exMemOperand m'.pipeline.exMem r x = exMemOperand m.pipeline.exMem r x := by
    intro r x
    rw [hexMem]
    rfl
  obtain ⟨hl1, hl2⟩ := resolveForwarding_eq m.pipeline.idEx m.pipeline
  obtain ⟨hr1, hr2⟩ := resolveForwarding_eq m'.pipeline.idEx m'.pipeline
  unfold RvPipeline.operandsOf
  rw [hl1, hl2, hr1, hr2, hstore, hstore, h.memWb, hidEx]
  exact ⟨fun hc => by rw [h1 hc], fun hc => by rw [h2 hc]⟩

theorem Alike.control : m'.pipeline.idEx.control = m.pipeline.idEx.control := by
  obtain ⟨v₁, v₂, hidEx, -⟩ := h.idEx
  rw [hidEx]

theorem Alike.nextExMemOf :
    RvPipeline.nextExMemOf m'.pipeline.idEx (RvPipeline.operandsOf m'.pipeline) =
      { RvPipeline.nextExMemOf m.pipeline.idEx (RvPipeline.operandsOf m.pipeline) with
        storeValue := (RvPipeline.operandsOf m'.pipeline).rs2Value } := by
  obtain ⟨v₁, v₂, hidEx, -⟩ := h.idEx
  rw [hidEx]
  exact nextExMemOf_congr v₁ v₂ h.operandsOf.1 h.operandsOf.2

/-- Branches are decided alike. -/
theorem Alike.branchTaken (hb : m.pipeline.idEx.control.branch = true) :
    RvPipeline.branchTaken m'.pipeline = RvPipeline.branchTaken m.pipeline := by
  obtain ⟨h1, h2⟩ := h.operandsOf
  unfold RvPipeline.branchTaken
  rw [h.control, h1 (by simp [consumesRs1, hb]), h2 (by simp [consumesRs2, hb])]

theorem Alike.exTarget :
    RvPipeline.exTarget m'.pipeline.idEx (RvPipeline.operandsOf m'.pipeline) =
      RvPipeline.exTarget m.pipeline.idEx (RvPipeline.operandsOf m.pipeline) := by
  have hbranch := h.branchTaken
  unfold RvPipeline.branchTaken at hbranch
  unfold RvPipeline.exTarget
  rw [h.nextExMemOf]
  obtain ⟨v₁, v₂, hidEx, -⟩ := h.idEx
  rw [hidEx] at hbranch ⊢
  dsimp only at hbranch ⊢
  cases hb : m.pipeline.idEx.control.branch with
  | true => rw [hbranch hb]
  | false => rfl

theorem Alike.redirects : RvPipeline.redirects m'.pipeline = RvPipeline.redirects m.pipeline := by
  unfold RvPipeline.redirects
  rw [h.exTarget]
  obtain ⟨v₁, v₂, hidEx, -⟩ := h.idEx
  rw [hidEx]

theorem Alike.stalls : RvPipeline.stalls m'.pipeline = RvPipeline.stalls m.pipeline := by
  unfold RvPipeline.stalls detectRawHazard
  rw [h.redirects, h.ifId]
  obtain ⟨v₁, v₂, hidEx, -⟩ := h.idEx
  rw [hidEx]

theorem Alike.takes : RvPipeline.takes m'.pipeline = RvPipeline.takes m.pipeline := by
  unfold RvPipeline.takes
  rw [h.redirects, h.stalls, h.ifId]

theorem Alike.nextIdEx (cpu : CPU) :
    RvPipeline.nextIdEx cpu m'.pipeline = RvPipeline.nextIdEx cpu m.pipeline := by
  unfold RvPipeline.nextIdEx
  rw [h.takes, h.ifId]

theorem Alike.fetchStops (cpu : CPU) :
    RvPipeline.fetchStops cpu m'.pipeline = RvPipeline.fetchStops cpu m.pipeline := by
  unfold RvPipeline.fetchStops haltIsInFlight
  obtain ⟨v₁, v₂, hidEx, -⟩ := h.idEx
  obtain ⟨v, hexMem, -⟩ := h.exMem
  rw [h.nextIdEx, hidEx, hexMem, h.memWb]

theorem Alike.nextIfId (cpu : CPU) :
    RvPipeline.nextIfId cpu m'.pipeline = RvPipeline.nextIfId cpu m.pipeline := by
  unfold RvPipeline.nextIfId
  rw [h.fetchStops, h.stalls, h.ifId]

theorem Alike.pcAfterIF (cpu : CPU) :
    RvPipeline.pcAfterIF cpu m'.pipeline = RvPipeline.pcAfterIF cpu m.pipeline := by
  unfold RvPipeline.pcAfterIF
  rw [h.fetchStops, h.stalls]

/-- The same redirection, and the same training of the predictor. -/
theorem Alike.cpuAfterEX :
    RvPipeline.cpuAfterEX m'.cpu m'.pipeline = RvPipeline.cpuAfterEX m.cpu m.pipeline := by
  have hbranch := h.branchTaken
  unfold RvPipeline.cpuAfterEX resolvesBranch
  rw [h.redirects, h.exTarget, h.cpu, h.control]
  obtain ⟨v₁, v₂, hidEx, -⟩ := h.idEx
  rw [hidEx]
  dsimp only
  cases hb : m.pipeline.idEx.control.branch with
  | true => rw [hbranch hb]
  | false => rw [Bool.and_false]; rfl

/-- **The execution stage** computes the same, except for a value that is not stored. -/
theorem Alike.nextExMem :
    (RvPipeline.nextExMem m.pipeline).Alike (RvPipeline.nextExMem m'.pipeline) := by
  have hvalid : m'.pipeline.idEx.valid = m.pipeline.idEx.valid := by
    obtain ⟨v₁, v₂, hidEx, -⟩ := h.idEx
    rw [hidEx]
  have hvalue : m.pipeline.idEx.control.memWrite = true →
      (RvPipeline.operandsOf m'.pipeline).rs2Value = (RvPipeline.operandsOf m.pipeline).rs2Value :=
    fun hw => h.operandsOf.2 (by simp [consumesRs2, hw])
  unfold RvPipeline.nextExMem
  rw [hvalid, h.control, h.nextExMemOf, h.exTarget]
  cases m.pipeline.idEx.valid with
  | false => exact ⟨0, rfl, fun _ => rfl⟩
  | true =>
    cases hb : m.pipeline.idEx.control.branch with
    | true =>
      rw [h.branchTaken hb]
      exact ⟨_, rfl, hvalue⟩
    | false =>
      cases m.pipeline.idEx.control.jump with
      | true => exact ⟨_, rfl, hvalue⟩
      | false => exact ⟨_, rfl, hvalue⟩

/-- **The stages behind `stage_MEM`** do the same. -/
theorem Alike.afterMEM : Alike (RvPipeline.afterMEM m) (RvPipeline.afterMEM m') := by
  have hcpu := h.cpuAfterEX
  refine ⟨?_, ?_, ?_, h.nextExMem, h.nextMemWb, h.nextMemWb⟩
  · unfold RvPipeline.afterMEM
    dsimp only
    rw [hcpu, h.pcAfterIF, h.stalls]
  · change RvPipeline.nextIfId (RvPipeline.cpuAfterEX m'.cpu m'.pipeline) m'.pipeline =
      RvPipeline.nextIfId (RvPipeline.cpuAfterEX m.cpu m.pipeline) m.pipeline
    rw [hcpu, h.nextIfId]
  · change (RvPipeline.nextIdEx (RvPipeline.cpuAfterEX m.cpu m.pipeline) m.pipeline).Alike
      (RvPipeline.nextIdEx (RvPipeline.cpuAfterEX m'.cpu m'.pipeline) m'.pipeline)
    rw [hcpu, h.nextIdEx]
    exact ⟨_, _, rfl, fun _ => rfl, fun _ => rfl⟩

end

/-! ## Runs -/

/-- **The cycle** of both has the same outcome. -/
theorem lockstep_runPipelineCycle : Lockstep Alike runPipelineCycle runPipelineCycle := by
  refine sameAccess_alike.lockstep_runPipelineCycle (fun h => ?_) Alike.afterMEM
  exact { h with cpu := by rw [h.cpu, h.memWb], nextMemWb := rfl }

/-- **Every call** finds the machines as alike as they were, also after a halt or an
    exception. -/
theorem Alike.calls {m m' : Machine} (h : Alike m m') (k : ℕ) :
    Alike (RvPipeline.calls k m) (RvPipeline.calls k m') := by
  induction k with
  | zero => exact h
  | succ k ih =>
    unfold RvPipeline.calls at ih ⊢
    rw [Function.iterate_succ_apply', Function.iterate_succ_apply']
    exact (lockstep_runPipelineCycle _ _ ih).stateOf

/-! ## Operands that are not listed -/

/-- `ID/EX` holds the instruction `d`, as `stage_ID` copies it (`src/stages.cpp`, lines
    278–295). -/
structure IDEXRegister.Holds (idEx : IDEXRegister) (d : DecodedInstruction) : Prop where
  valid : idEx.valid = true
  format : idEx.format = d.format
  rd : idEx.rd = d.rd
  rs1 : idEx.rs1 = d.rs1
  rs2 : idEx.rs2 = d.rs2
  funct3 : idEx.funct3 = d.funct3
  funct7 : idEx.funct7 = d.funct7
  immediate : idEx.immediate = d.immediate
  control : idEx.control = d.control

theorem holds_nextIdExOf (cpu : CPU) (ifId : IFIDRegister) (d : DecodedInstruction) :
    (nextIdExOf cpu ifId d).Holds d := ⟨rfl, rfl, rfl, rfl, rfl, rfl, rfl, rfl, rfl⟩

/-- The machine with other copies of the operands in `ID/EX`. -/
def Machine.setOperands (rs1Value rs2Value : Word) (m : Machine) : Machine :=
  { m with pipeline.idEx.rs1Value := rs1Value, pipeline.idEx.rs2Value := rs2Value }

/-- The hazard unit and `stage_EX` agree on the sources of `d`. -/
structure SourcesAgree (d : DecodedInstruction) : Prop where
  usesRs1 : (getSourceRegisters d).usesRs1 = true ↔ d.rs1 ≠ 0#5 ∧
    (d.control.branch = true ∨ d.control.aluOp ≠ .none ∧ d.control.aluSrcPc = false)
  usesRs2 : (getSourceRegisters d).usesRs2 = true ↔ d.rs2 ≠ 0#5 ∧
    (d.control.branch = true ∨ d.control.memWrite = true ∨
      d.control.aluOp ≠ .none ∧ d.control.aluSrcImm = false)
  /-- Whatever the other latches hold, bubbles or instructions: if only operands are
      changed that name a register other than `x0` and are not listed, then this cycle and
      all that follow have the same outcome. -/
  unlisted : ∀ (m : Machine) (v₁ v₂ : Word), m.pipeline.idEx.Holds d →
    (v₁ = m.pipeline.idEx.rs1Value ∨ d.rs1 ≠ 0#5 ∧ (getSourceRegisters d).usesRs1 = false) →
    (v₂ = m.pipeline.idEx.rs2Value ∨ d.rs2 ≠ 0#5 ∧ (getSourceRegisters d).usesRs2 = false) →
    ∀ k, Alike (calls k m) (calls k (m.setOperands v₁ v₂)) ∧
      SameOutcome Alike (runPipelineCycle (calls k m))
        (runPipelineCycle (calls k (m.setOperands v₁ v₂)))

/-- An operand that is consumed and does not name `x0` is listed. -/
theorem eq_of_consumed {v v' : Word} {r : Reg} {consumed listed : Bool}
    (hlisted : listed = (consumed && r != 0#5)) (h : v' = v ∨ r ≠ 0#5 ∧ listed = false)
    (hc : consumed = true) : v' = v := by
  rcases h with hv | ⟨h0, hl⟩
  · exact hv
  · rw [hlisted, hc, bne_iff_ne.mpr h0] at hl
    cases hl

/-- **The sources** of every word that decodes: the hazard unit lists what the control
    signals make `stage_EX` consume, and nothing else has an influence. -/
theorem sources_agree {w : Word} (h : isValidInstruction (decodeInstruction w) = true) :
    SourcesAgree (decodeInstruction w) := by
  obtain ⟨i, hi⟩ : ∃ i, instrOf w = some i := by
    refine Option.ne_none_iff_exists'.mp fun hn => ?_
    rw [instrOf_eq_none.mp hn] at h
    cases h
  have hrec := (decodesTo_of_instrOf hi).record
  obtain ⟨h1, h2⟩ := getSourceRegisters_uses (d := decodeInstruction w) (i := i) (by rw [hrec])
    (by rw [hrec])
  refine ⟨?_, ?_, ?_⟩
  · rw [h1]
    simp [consumesRs1, and_comm]
  · rw [h2]
    simp [consumesRs2, and_comm, or_assoc]
  · intro m v₁ v₂ hd hv₁ hv₂ k
    have halike : Alike m (m.setOperands v₁ v₂) :=
      { cpu := rfl
        ifId := rfl
        idEx := by
          refine ⟨v₁, v₂, rfl, ?_, ?_⟩
          · rw [hd.control]
            exact eq_of_consumed h1 hv₁
          · rw [hd.control]
            exact eq_of_consumed h2 hv₂
        exMem := ⟨_, rfl, fun _ => rfl⟩
        memWb := rfl
        nextMemWb := rfl }
    exact ⟨halike.calls k, lockstep_runPipelineCycle _ _ (halike.calls k)⟩

/-- `lui x1, 0x12345` in `ID/EX`. Its immediate covers the `rs1` and `rs2` fields, which
    name `x8` and `x3`. -/
def luiDemo : Machine where
  cpu := .new 0
  pipeline.idEx := nextIdExOf (.new 0) { valid := true, instruction := 0x123450B7 }
    (decodeInstruction 0x123450B7)

/-- Its result does not depend on what has been copied from `x8` and `x3`. -/
theorem luiDemo_sources :
    (calls 3 (luiDemo.setOperands 0xDEADBEEF 7)).cpu.readReg 1 = 0x12345000 := by
  have hsources := sources_agree (w := 0x123450B7) (by decide +kernel)
  have halike := (hsources.unlisted luiDemo 0xDEADBEEF 7 (holds_nextIdExOf _ _ _)
    (.inr (by decide +kernel)) (.inr (by decide +kernel)) 3).1
  rw [halike.cpu]
  decide +kernel

end RvPipeline
