import RvPipeline.Pipeline.Memory
import RvPipeline.Isa.Prefetch

/-!
# Control signals and the effect of an instruction

What a latch holds for an instruction of the ISA, and that a stage turns the
contents of one latch into those of the next.

* `IdExOf`, `ExMemOf`, `MemWbOf`: the latch holds instruction `i` of word `x`,
  with the values the instruction has in state `s`.
* `exMemOf_nextExMemOf`, `memWbOf_nextMemWbOf`: execution and memory stage.
-/

namespace RvPipeline

open Isa

/-! ## Control signals -/

section

variable (i : Instr)

@[simp] theorem control_regWrite : i.control.regWrite = i.dest.isSome := by
  cases i <;> rfl

@[simp] theorem control_memRead : i.control.memRead = i.isLoad := by
  cases i <;> rfl

@[simp] theorem control_memWrite : i.control.memWrite = i.isStore := by
  cases i <;> rfl

@[simp] theorem control_branch : i.control.branch = i.isBranch := by
  cases i <;> rfl

@[simp] theorem control_jump : i.control.jump = i.isJump := by
  cases i <;> rfl

@[simp] theorem control_halt : i.control.halt = i.isHalt := by
  cases i <;> rfl

end

/-- The register operands of `i` are the register fields of `w`. -/
def Isa.Instr.RegsOf (w : Word) : Instr → Prop
  | .op _ rd rs1 rs2 => rd = rdOf w ∧ rs1 = rs1Of w ∧ rs2 = rs2Of w
  | .opImm _ rd rs1 _ | .shift _ rd rs1 _ | .load _ rd rs1 _ | .jalr rd rs1 _ =>
    rd = rdOf w ∧ rs1 = rs1Of w
  | .store _ rs1 rs2 _ | .branch _ rs1 rs2 _ => rs1 = rs1Of w ∧ rs2 = rs2Of w
  | .lui rd _ | .auipc rd _ | .jal rd _ => rd = rdOf w
  | .ecall | .ebreak => True

theorem regsOf_of_instrOf {w : Word} {i : Instr} (h : instrOf w = some i) : i.RegsOf w := by
  rw [instrOf_eq] at h
  generalize (decodeInstruction w).kind = kind at h
  cases kind <;> cases h <;> simp [Instr.RegsOf, Operands.ofWord]

theorem dest_of_instrOf {w : Word} {i : Instr} {rd : Reg} (h : instrOf w = some i)
    (hd : i.dest = some rd) : rd = rdOf w := by
  have hr := regsOf_of_instrOf h
  cases i <;> simp_all [Instr.RegsOf, Instr.dest]

/-! ## The ALU -/

theorem and_31_toNat (y : Word) : (y &&& 0x1F#32).toNat = y.toNat % 32 := by
  rw [BitVec.toNat_and]
  exact Nat.and_two_pow_sub_one_eq_mod y.toNat 5

theorem executeAlu_regOp (o : RegOp) (x y : Word) : executeAlu o.aluOp x y = o.eval x y := by
  cases o <;>
    simp only [executeAlu, RegOp.aluOp, RegOp.eval, BitVec.shiftLeft_eq', BitVec.ushiftRight_eq',
      BitVec.sshiftRight_eq', and_31_toNat]

theorem executeAlu_immOp (o : ImmOp) (x y : Word) : executeAlu o.aluOp x y = o.eval x y := by
  cases o <;> rfl

theorem executeAlu_shiftOp (o : ShiftOp) (x : Word) (shamt : BitVec 5) :
    executeAlu o.aluOp x (shamt.setWidth 32) = o.eval x shamt := by
  have h : (shamt.setWidth 32 &&& 0x1F#32).toNat = shamt.toNat := by
    have := shamt.isLt
    rw [and_31_toNat, BitVec.toNat_setWidth]
    omega
  cases o <;>
    simp only [executeAlu, ShiftOp.aluOp, ShiftOp.eval, BitVec.shiftLeft_eq',
      BitVec.ushiftRight_eq', BitVec.sshiftRight_eq', h]

theorem evaluateBranch_branchOp (o : BranchOp) (x y : Word) :
    evaluateBranch o.condition x y = o.taken x y := by
  cases o <;> rfl

/-! ## Latch contents -/

/-- The forwarded operands of word `w` are the registers `i` reads in `s`. -/
structure OperandsOf (s : Arch) (w : Word) (i : Instr) (operands : ForwardedOperands) : Prop where
  rs1 : i.reads (rs1Of w) = true → operands.rs1Value = s.reg (rs1Of w)
  rs2 : i.reads (rs2Of w) = true → operands.rs2Value = s.reg (rs2Of w)

/-- `ID/EX` holds the instruction `i` of the word `x.word` at `x.pc`. -/
structure IdExOf (x : Fetched) (i : Instr) (idEx : IDEXRegister) : Prop where
  valid : idEx.valid = true
  pc : idEx.pc = x.pc
  instruction : idEx.instruction = x.word
  rd : idEx.rd = rdOf x.word
  rs1 : idEx.rs1 = rs1Of x.word
  rs2 : idEx.rs2 = rs2Of x.word
  immediate : idEx.immediate = i.immediate
  control : idEx.control = i.control

/-- `EX/MEM` holds `i`, executed in `s`. -/
structure ExMemOf (s : Arch) (x : Fetched) (i : Instr) (exMem : EXMEMRegister) : Prop where
  valid : exMem.valid = true
  pc : exMem.pc = x.pc
  instruction : exMem.instruction = x.word
  rd : exMem.rd = rdOf x.word
  control : exMem.control = i.control
  address : ∀ a n, s.access i = some (a, n) → exMem.aluResult = a
  storeValue : ∀ o rs1 rs2 imm, i = .store o rs1 rs2 imm → exMem.storeValue = s.reg rs2
  value : i.dest.isSome = true → i.isLoad = false → exMemForwardValue exMem = s.result i

/-- `MEM/WB` holds `i`, executed in `s`, with the value it writes back. -/
structure MemWbOf (s : Arch) (x : Fetched) (i : Instr) (memWb : MEMWBRegister) : Prop where
  valid : memWb.valid = true
  pc : memWb.pc = x.pc
  instruction : memWb.instruction = x.word
  rd : memWb.rd = rdOf x.word
  control : memWb.control = i.control
  value : i.dest.isSome = true → selectWritebackValue memWb = s.result i

section

variable {s : Arch} {x : Fetched} {i : Instr} {idEx : IDEXRegister} {operands : ForwardedOperands}

/-- The control-flow target `stage_EX` computes. -/
def exTarget (idEx : IDEXRegister) (operands : ForwardedOperands) : Word :=
  if idEx.control.branch then
    if evaluateBranch idEx.control.branchCondition operands.rs1Value operands.rs2Value then
      idEx.pc + idEx.immediate
    else idEx.pc + 4
  else if idEx.control.aluSrcPc then (nextExMemOf idEx operands).aluResult
  else (nextExMemOf idEx operands).aluResult &&& ~~~1#32

/-- The first ALU input is the `rs1` operand of an instruction that reads it. -/
theorem OperandsOf.eq_rs1 (h : OperandsOf s x.word i operands) {rs1 : Reg}
    (hr : i.reads rs1 = true) (hx : rs1 = rs1Of x.word) : operands.rs1Value = s.reg rs1 := by
  subst hx
  exact h.rs1 hr

theorem OperandsOf.eq_rs2 (h : OperandsOf s x.word i operands) {rs2 : Reg}
    (hr : i.reads rs2 = true) (hx : rs2 = rs2Of x.word) : operands.rs2Value = s.reg rs2 := by
  subst hx
  exact h.rs2 hr

/-- **The execution stage** leaves in `EX/MEM` what the instruction computes. -/
theorem exMemOf_nextExMemOf (hi : instrOf x.word = some i) (hl : IdExOf x i idEx)
    (hpc : s.pc = x.pc) (ho : OperandsOf s x.word i operands) :
    ExMemOf s x i (nextExMemOf idEx operands) := by
  have hregs := regsOf_of_instrOf hi
  refine ⟨rfl, hl.pc, hl.instruction, hl.rd, hl.control, ?_, ?_, ?_⟩
  · intro a n ha
    cases i with
    | load o rd rs1 imm =>
      cases ha
      have h1 := ho.eq_rs1 (by simp [Instr.reads]) hregs.2
      simp [nextExMemOf, hl.control, hl.immediate, Instr.control, Instr.immediate, executeAlu, h1]
    | store o rs1 rs2 imm =>
      cases ha
      have h1 := ho.eq_rs1 (by simp [Instr.reads]) hregs.1
      simp [nextExMemOf, hl.control, hl.immediate, Instr.control, Instr.immediate, executeAlu, h1]
    | _ => cases ha
  · rintro o rs1 rs2 imm rfl
    exact ho.eq_rs2 (by simp [Instr.reads]) hregs.2
  · intro hd hnl
    cases i with
    | op o rd rs1 rs2 =>
      have h1 := ho.eq_rs1 (by simp [Instr.reads]) hregs.2.1
      have h2 := ho.eq_rs2 (by simp [Instr.reads]) hregs.2.2
      simp [nextExMemOf, exMemForwardValue, hl.control, Instr.control, executeAlu_regOp, h1, h2,
        Arch.result]
    | opImm o rd rs1 imm =>
      have h1 := ho.eq_rs1 (by simp [Instr.reads]) hregs.2
      simp [nextExMemOf, exMemForwardValue, hl.control, hl.immediate, Instr.control,
        Instr.immediate, executeAlu_immOp, h1, Arch.result]
    | shift o rd rs1 shamt =>
      have h1 := ho.eq_rs1 (by simp [Instr.reads]) hregs.2
      simp [nextExMemOf, exMemForwardValue, hl.control, hl.immediate, Instr.control,
        Instr.immediate, executeAlu_shiftOp, h1, Arch.result]
    | load => cases hnl
    | lui rd imm =>
      simp [nextExMemOf, exMemForwardValue, hl.control, hl.immediate, Instr.control,
        Instr.immediate, Arch.result]
    | auipc rd imm =>
      simp [nextExMemOf, exMemForwardValue, hl.control, hl.immediate, hl.pc, Instr.control,
        Instr.immediate, executeAlu, Arch.result, hpc]
    | jal rd offset =>
      simp [nextExMemOf, exMemForwardValue, hl.control, hl.pc, Instr.control, Arch.result, hpc]
    | jalr rd rs1 imm =>
      simp [nextExMemOf, exMemForwardValue, hl.control, hl.pc, Instr.control, Arch.result, hpc]
    | store => cases hd
    | branch => cases hd
    | ecall => cases hd
    | ebreak => cases hd

/-- The target of a conditional branch or a jump is where execution continues. -/
theorem exTarget_eq (hi : instrOf x.word = some i) (hl : IdExOf x i idEx) (hpc : s.pc = x.pc)
    (ho : OperandsOf s x.word i operands) (hc : i.isBranch = true ∨ i.isJump = true) :
    exTarget idEx operands = s.nextPc i := by
  have hregs := regsOf_of_instrOf hi
  unfold exTarget
  rw [hl.control, hl.pc, hl.immediate]
  cases i with
  | branch o rs1 rs2 offset =>
    have h1 := ho.eq_rs1 (by simp [Instr.reads]) hregs.1
    have h2 := ho.eq_rs2 (by simp [Instr.reads]) hregs.2
    simp [Instr.control, Instr.immediate, evaluateBranch_branchOp, h1, h2, Arch.nextPc, hpc]
  | jal rd offset =>
    simp [nextExMemOf, hl.control, hl.immediate, hl.pc, Instr.control, Instr.immediate,
      executeAlu, Arch.nextPc, hpc]
  | jalr rd rs1 imm =>
    have h1 := ho.eq_rs1 (by simp [Instr.reads]) hregs.2
    simp [nextExMemOf, hl.control, hl.immediate, Instr.control, Instr.immediate, executeAlu,
      Arch.nextPc, h1]
  | _ => rcases hc with hc | hc <;> cases hc

/-- The branch outcome `stage_EX` computes. -/
theorem evaluateBranch_eq (hi : instrOf x.word = some i) (hl : IdExOf x i idEx)
    (ho : OperandsOf s x.word i operands) (hc : i.isBranch = true) :
    s.branchOutcome i =
      some (evaluateBranch idEx.control.branchCondition operands.rs1Value operands.rs2Value) := by
  have hregs := regsOf_of_instrOf hi
  rw [hl.control]
  cases i with
  | branch o rs1 rs2 offset =>
    have h1 := ho.eq_rs1 (by simp [Instr.reads]) hregs.1
    have h2 := ho.eq_rs2 (by simp [Instr.reads]) hregs.2
    simp [Instr.control, evaluateBranch_branchOp, h1, h2, Arch.branchOutcome]
  | _ => cases hc

end

/-! ## The memory stage -/

section

variable {s : Arch} {x : Fetched} {i : Instr} {exMem : EXMEMRegister}

theorem selectWritebackValue_nextMemWbOf (exMem : EXMEMRegister) (v : Word)
    (h : exMem.control.writebackSource ≠ .memory) :
    selectWritebackValue { nextMemWbOf exMem with memoryData := v } = exMemForwardValue exMem := by
  unfold selectWritebackValue exMemForwardValue nextMemWbOf
  cases hs : exMem.control.writebackSource <;> simp_all

/-- **The memory stage** leaves in `MEM/WB` the value the instruction writes back. -/
theorem memWbOf_nextMemWbOf (hl : ExMemOf s x i exMem) {v : Word}
    (hv : i.isLoad = true → v = s.result i) :
    MemWbOf s x i { nextMemWbOf exMem with memoryData := v } := by
  refine ⟨rfl, hl.pc, hl.instruction, hl.rd, hl.control, fun hd => ?_⟩
  cases hload : i.isLoad with
  | true =>
    cases i with
    | load o rd rs1 imm =>
      rw [← hv hload]
      simp [selectWritebackValue, nextMemWbOf, hl.control, Instr.control]
    | _ => cases hload
  | false =>
    rw [selectWritebackValue_nextMemWbOf, hl.value hd hload]
    rw [hl.control]
    cases i with
    | load => cases hload
    | _ => exact fun h => by cases h

end

/-! ## Decoding in `ID` -/

section

variable {i : Instr}

/-- **The decode stage** leaves in `ID/EX` the instruction of the word. -/
theorem idExOf_nextIdExOf (cpu : CPU) {ifId : IFIDRegister} (h : instrOf ifId.instruction = some i) :
    IdExOf ⟨ifId.pc, ifId.instruction⟩ i
      (nextIdExOf cpu ifId (decodeInstruction ifId.instruction)) := by
  have hrec := (decodesTo_of_instrOf h).record
  refine ⟨rfl, rfl, rfl, ?_, ?_, ?_, ?_, ?_⟩
  · change (decodeInstruction ifId.instruction).rd = _
    rw [hrec]
    exact extractRd_eq _
  · change (decodeInstruction ifId.instruction).rs1 = _
    rw [hrec]
    exact extractRs1_eq _
  · change (decodeInstruction ifId.instruction).rs2 = _
    rw [hrec]
    exact extractRs2_eq _
  · change (decodeInstruction ifId.instruction).immediate = _
    rw [hrec]
  · change (decodeInstruction ifId.instruction).control = _
    rw [hrec]

/-- Dropping `x0` from the sources does not matter to other registers. -/
theorem dependsOn_dropZero (sources : SourceRegisters) {rd : Reg} (hrd : rd ≠ 0#5) :
    dependsOn
      (let sources :=
        if sources.rs1 = 0#5 then { sources with usesRs1 := false } else sources
      if sources.rs2 = 0#5 then { sources with usesRs2 := false } else sources) rd =
      (sources.usesRs1 && sources.rs1 == rd || sources.usesRs2 && sources.rs2 == rd) := by
  have hne : (0#5 == rd) = false := by simpa using hrd.symm
  by_cases h1 : sources.rs1 = 0#5 <;> by_cases h2 : sources.rs2 = 0#5 <;>
    simp [dependsOn, h1, h2, hne]

/-- The hazard unit asks for the registers the instruction reads. -/
theorem dependsOn_getSourceRegisters {w : Word} (h : instrOf w = some i) {rd : Reg}
    (hrd : rd ≠ 0#5) : dependsOn (getSourceRegisters (decodeInstruction w)) rd = i.reads rd := by
  have hrec := (decodesTo_of_instrOf h).record
  have hregs := regsOf_of_instrOf h
  have hkind : (decodeInstruction w).kind = i.kind := by rw [hrec]
  have h1 : (decodeInstruction w).rs1 = rs1Of w := by rw [hrec]; exact extractRs1_eq w
  have h2 : (decodeInstruction w).rs2 = rs2Of w := by rw [hrec]; exact extractRs2_eq w
  unfold getSourceRegisters
  rw [dependsOn_dropZero _ hrd, hkind, h1, h2]
  cases i with
  | op o rd' rs1 rs2 =>
    obtain ⟨-, rfl, rfl⟩ := hregs
    cases o <;> rfl
  | opImm o rd' rs1 imm =>
    obtain ⟨-, rfl⟩ := hregs
    cases o <;> simp [Instr.kind, ImmOp.kind, Instr.reads]
  | shift o rd' rs1 shamt =>
    obtain ⟨-, rfl⟩ := hregs
    cases o <;> simp [Instr.kind, ShiftOp.kind, Instr.reads]
  | load o rd' rs1 imm =>
    obtain ⟨-, rfl⟩ := hregs
    cases o <;> simp [Instr.kind, LoadOp.kind, Instr.reads]
  | store o rs1 rs2 imm =>
    obtain ⟨rfl, rfl⟩ := hregs
    cases o <;> rfl
  | branch o rs1 rs2 offset =>
    obtain ⟨rfl, rfl⟩ := hregs
    cases o <;> rfl
  | jalr rd' rs1 imm =>
    obtain ⟨-, rfl⟩ := hregs
    simp [Instr.kind, Instr.reads]
  | _ => rfl

end

end RvPipeline
