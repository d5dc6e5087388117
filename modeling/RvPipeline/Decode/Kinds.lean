import RvPipeline.Decode.Fields
import RvPipeline.Isa.Decode

/-!
# What decoding says

`decodeInstruction` returns a kind, operand fields, an immediate and control
signals. `InstructionKind.instr` reads a kind and the fields of a word as an
instruction of the ISA, and `Instr.kind`, `Instr.control` and `Instr.immediate` go
the other way: they are the tables of what the decoder answers for each instruction.

Results:

* `instrOf_eq`: the instruction the decoder finds in a word is the one it has by the
  formats of the ISA.
* `decodesTo_of_instrOf`: the decoded record of a word is the one the tables give for its
  instruction. This is the one fact about the decoder that the rest needs.
-/

namespace RvPipeline

open Isa

/-! ## From the kind to the instruction -/

/-- The operands of all formats. -/
structure Operands where
  rd : Reg
  rs1 : Reg
  rs2 : Reg
  shamt : BitVec 5
  immI : BitVec 12
  immS : BitVec 12
  immB : BitVec 12
  immU : BitVec 20
  immJ : BitVec 20

/-- The operand fields of a word. -/
def Operands.ofWord (w : Word) : Operands :=
  { rd := rdOf w, rs1 := rs1Of w, rs2 := rs2Of w, shamt := rs2Of w, immI := Isa.immI w,
    immS := Isa.immS w, immB := Isa.immB w, immU := Isa.immU w, immJ := Isa.immJ w }

/-- The instruction of a kind, with the operands of its format. -/
def InstructionKind.instr (kind : InstructionKind) (f : Operands) : Option Instr :=
  match kind with
  | .invalid => none
  | .add => some (.op .add f.rd f.rs1 f.rs2)
  | .sub => some (.op .sub f.rd f.rs1 f.rs2)
  | .sll => some (.op .sll f.rd f.rs1 f.rs2)
  | .slt => some (.op .slt f.rd f.rs1 f.rs2)
  | .sltu => some (.op .sltu f.rd f.rs1 f.rs2)
  | .xor => some (.op .xor f.rd f.rs1 f.rs2)
  | .srl => some (.op .srl f.rd f.rs1 f.rs2)
  | .sra => some (.op .sra f.rd f.rs1 f.rs2)
  | .or => some (.op .or f.rd f.rs1 f.rs2)
  | .and => some (.op .and f.rd f.rs1 f.rs2)
  | .addi => some (.opImm .addi f.rd f.rs1 f.immI)
  | .slti => some (.opImm .slti f.rd f.rs1 f.immI)
  | .sltiu => some (.opImm .sltiu f.rd f.rs1 f.immI)
  | .xori => some (.opImm .xori f.rd f.rs1 f.immI)
  | .ori => some (.opImm .ori f.rd f.rs1 f.immI)
  | .andi => some (.opImm .andi f.rd f.rs1 f.immI)
  | .slli => some (.shift .slli f.rd f.rs1 f.shamt)
  | .srli => some (.shift .srli f.rd f.rs1 f.shamt)
  | .srai => some (.shift .srai f.rd f.rs1 f.shamt)
  | .lb => some (.load .lb f.rd f.rs1 f.immI)
  | .lh => some (.load .lh f.rd f.rs1 f.immI)
  | .lw => some (.load .lw f.rd f.rs1 f.immI)
  | .lbu => some (.load .lbu f.rd f.rs1 f.immI)
  | .lhu => some (.load .lhu f.rd f.rs1 f.immI)
  | .sb => some (.store .sb f.rs1 f.rs2 f.immS)
  | .sh => some (.store .sh f.rs1 f.rs2 f.immS)
  | .sw => some (.store .sw f.rs1 f.rs2 f.immS)
  | .beq => some (.branch .beq f.rs1 f.rs2 f.immB)
  | .bne => some (.branch .bne f.rs1 f.rs2 f.immB)
  | .blt => some (.branch .blt f.rs1 f.rs2 f.immB)
  | .bge => some (.branch .bge f.rs1 f.rs2 f.immB)
  | .bltu => some (.branch .bltu f.rs1 f.rs2 f.immB)
  | .bgeu => some (.branch .bgeu f.rs1 f.rs2 f.immB)
  | .lui => some (.lui f.rd f.immU)
  | .auipc => some (.auipc f.rd f.immU)
  | .jal => some (.jal f.rd f.immJ)
  | .jalr => some (.jalr f.rd f.rs1 f.immI)
  | .ecall => some .ecall
  | .ebreak => some .ebreak

theorem InstructionKind.instr_eq_none {kind : InstructionKind} {f : Operands} :
    kind.instr f = none ↔ kind = .invalid := by
  cases kind <;> simp [InstructionKind.instr]

/-! ## From the instruction to the decoded record -/

/-- The kind of a register-register operation. -/
def Isa.RegOp.kind : RegOp → InstructionKind
  | .add => .add | .sub => .sub | .sll => .sll | .slt => .slt | .sltu => .sltu
  | .xor => .xor | .srl => .srl | .sra => .sra | .or => .or | .and => .and

/-- The ALU operation of a register-register operation. -/
def Isa.RegOp.aluOp : RegOp → ALUOp
  | .add => .add | .sub => .sub | .sll => .sll | .slt => .slt | .sltu => .sltu
  | .xor => .xor | .srl => .srl | .sra => .sra | .or => .or | .and => .and

/-- The kind of a register-immediate operation. -/
def Isa.ImmOp.kind : ImmOp → InstructionKind
  | .addi => .addi | .slti => .slti | .sltiu => .sltiu | .xori => .xori | .ori => .ori
  | .andi => .andi

/-- The ALU operation of a register-immediate operation. -/
def Isa.ImmOp.aluOp : ImmOp → ALUOp
  | .addi => .add | .slti => .slt | .sltiu => .sltu | .xori => .xor | .ori => .or | .andi => .and

/-- The kind of an immediate shift. -/
def Isa.ShiftOp.kind : ShiftOp → InstructionKind
  | .slli => .slli | .srli => .srli | .srai => .srai

/-- The ALU operation of an immediate shift. -/
def Isa.ShiftOp.aluOp : ShiftOp → ALUOp
  | .slli => .sll | .srli => .srl | .srai => .sra

/-- The kind of a load. -/
def Isa.LoadOp.kind : LoadOp → InstructionKind
  | .lb => .lb | .lh => .lh | .lw => .lw | .lbu => .lbu | .lhu => .lhu

/-- The access width of a load. -/
def Isa.LoadOp.width : LoadOp → MemoryAccessWidth
  | .lb | .lbu => .byte | .lh | .lhu => .halfWord | .lw => .word

/-- Whether a load extends with zeros. -/
def Isa.LoadOp.unsigned : LoadOp → Bool
  | .lbu | .lhu => true | _ => false

/-- The kind of a store. -/
def Isa.StoreOp.kind : StoreOp → InstructionKind
  | .sb => .sb | .sh => .sh | .sw => .sw

/-- The access width of a store. -/
def Isa.StoreOp.width : StoreOp → MemoryAccessWidth
  | .sb => .byte | .sh => .halfWord | .sw => .word

/-- The kind of a conditional branch. -/
def Isa.BranchOp.kind : BranchOp → InstructionKind
  | .beq => .beq | .bne => .bne | .blt => .blt | .bge => .bge | .bltu => .bltu | .bgeu => .bgeu

/-- The condition of a conditional branch. -/
def Isa.BranchOp.condition : BranchOp → BranchCondition
  | .beq => .equal | .bne => .notEqual | .blt => .lessThan | .bge => .greaterOrEqual
  | .bltu => .lessThanUnsigned | .bgeu => .greaterOrEqualUnsigned

namespace Isa.Instr

/-- The kind of an instruction. -/
def kind : Instr → InstructionKind
  | .op o .. => o.kind
  | .opImm o .. => o.kind
  | .shift o .. => o.kind
  | .load o .. => o.kind
  | .store o .. => o.kind
  | .branch o .. => o.kind
  | .lui .. => .lui
  | .auipc .. => .auipc
  | .jal .. => .jal
  | .jalr .. => .jalr
  | .ecall => .ecall
  | .ebreak => .ebreak

/-- The format of an instruction. -/
def format : Instr → InstructionFormat
  | .op .. => .r
  | .opImm .. | .shift .. | .load .. | .jalr .. | .ecall | .ebreak => .i
  | .store .. => .s
  | .branch .. => .b
  | .lui .. | .auipc .. => .u
  | .jal .. => .j

/-- The immediate as the decoder returns it. -/
def immediate : Instr → Word
  | .op .. | .ecall => 0
  | .opImm _ _ _ imm | .load _ _ _ imm | .store _ _ _ imm | .jalr _ _ imm => imm.signExtend 32
  | .shift _ _ _ shamt => shamt.setWidth 32
  | .branch _ _ _ offset => branchOffset offset
  | .lui _ imm | .auipc _ imm => imm ++ 0#12
  | .jal _ offset => jumpOffset offset
  | .ebreak => 1

/-- The control signals of an instruction. -/
def control : Instr → ControlSignals
  | .op o .. => { regWrite := true, aluOp := o.aluOp, writebackSource := .alu }
  | .opImm o .. =>
    { regWrite := true, aluSrcImm := true, aluOp := o.aluOp, writebackSource := .alu }
  | .shift o .. =>
    { regWrite := true, aluSrcImm := true, aluOp := o.aluOp, writebackSource := .alu }
  | .load o .. =>
    { regWrite := true, memRead := true, aluSrcImm := true, memUnsigned := o.unsigned,
      aluOp := .add, writebackSource := .memory, memoryWidth := o.width }
  | .store o .. => { memWrite := true, aluSrcImm := true, aluOp := .add, memoryWidth := o.width }
  | .branch o .. => { branch := true, aluOp := .sub, branchCondition := o.condition }
  | .lui .. => { regWrite := true, writebackSource := .immediate }
  | .auipc .. =>
    { regWrite := true, aluSrcPc := true, aluSrcImm := true, aluOp := .add,
      writebackSource := .alu }
  | .jal .. =>
    { regWrite := true, jump := true, aluSrcPc := true, aluSrcImm := true, aluOp := .add,
      writebackSource := .pcPlus4 }
  | .jalr .. =>
    { regWrite := true, jump := true, aluSrcImm := true, aluOp := .add,
      writebackSource := .pcPlus4 }
  | .ecall | .ebreak => { halt := true }

end Isa.Instr

/-! ## Fields -/

/-- Truncating undoes sign extension. -/
theorem setWidth_signExtend {n : ℕ} (x : BitVec n) (h : n ≤ 32) :
    (x.signExtend 32).setWidth n = x := by
  apply BitVec.eq_of_getLsbD_eq
  intro i hi
  rw [BitVec.getLsbD_setWidth, BitVec.getLsbD_signExtend]
  simp [hi, show i < 32 by omega]

section

variable {w : Word}

/-- The low five bits of an I-format immediate are the shift amount. -/
theorem immI_and_shamt (w : Word) : (immI w).signExtend 32 &&& 0x1F = (rs2Of w).setWidth 32 := by
  apply BitVec.eq_of_getLsbD_eq
  intro i hi
  have hmask : (0x1F : Word).getLsbD i = decide (i < 5) := by
    interval_cases i <;> decide
  rw [BitVec.getLsbD_and, hmask, BitVec.getLsbD_setWidth, BitVec.getLsbD_signExtend]
  by_cases h : i < 5
  · simp [immI, rs2Of, hi, h, show i < 12 by omega]
  · simp [rs2Of, h]

theorem immI_eq_of_imm {imm : BitVec 12} {x : Word} (hx : imm.signExtend 32 = x)
    (h : (decodeIType w).imm = x) : immI w = imm := by
  rw [decodeIType_imm, ← hx] at h
  rw [← setWidth_signExtend (immI w) (by omega), h, setWidth_signExtend imm (by omega)]

theorem decodeRType_funct3 (w : Word) : (decodeRType w).funct3 = w.extractLsb' 12 3 :=
  extractFunct3_eq w

theorem decodeRType_funct7 (w : Word) : (decodeRType w).funct7 = w.extractLsb' 25 7 :=
  extractFunct7_eq w

theorem decodeIType_funct3 (w : Word) : (decodeIType w).funct3 = w.extractLsb' 12 3 :=
  extractFunct3_eq w

theorem decodeSType_funct3 (w : Word) : (decodeSType w).funct3 = w.extractLsb' 12 3 :=
  extractFunct3_eq w

theorem decodeBType_funct3 (w : Word) : (decodeBType w).funct3 = w.extractLsb' 12 3 :=
  extractFunct3_eq w

theorem baseDecoded_funct7 (w : Word) : (baseDecoded w).funct7 = w.extractLsb' 25 7 :=
  extractFunct7_eq w

/-! ## The arms of the `switch` -/

/-- `d` is what the tables say for the instruction `i` of `w`, and `w` is the
    encoding of `i` if it is the arm for its opcode. -/
structure DecodesTo (w : Word) (opcode : BitVec 7) (d : DecodedInstruction) (i : Instr) :
    Prop where
  record : d = { baseDecoded w with
    kind := i.kind, format := i.format, immediate := i.immediate, control := i.control }
  encodes : w.extractLsb' 0 7 = opcode → i.encodeLoose (rdOf w) (rs1Of w) = w

/-- The arm `d` for `opcode` is what the tables say, if it finds an instruction. -/
def DecodesArm (w : Word) (opcode : BitVec 7) (d : DecodedInstruction) : Prop :=
  ∀ i, d.kind.instr (.ofWord w) = some i → DecodesTo w opcode d i

section

variable {opcode : BitVec 7} {d d' : DecodedInstruction}

theorem DecodesArm.of_none (h : d.kind.instr (.ofWord w) = none) : DecodesArm w opcode d := by
  intro i hi
  rw [h] at hi
  cases hi

theorem DecodesArm.of_some {i : Instr} (h : d.kind.instr (.ofWord w) = some i)
    (hd : DecodesTo w opcode d i) : DecodesArm w opcode d := by
  intro j hj
  cases h.symm.trans hj
  exact hd

theorem DecodesArm.ite {c : Prop} [Decidable c] (h : c → DecodesArm w opcode d)
    (h' : ¬ c → DecodesArm w opcode d') : DecodesArm w opcode (if c then d else d') := by
  by_cases hc : c
  · rw [if_pos hc]
    exact h hc
  · rw [if_neg hc]
    exact h' hc

end

theorem decodeReg_spec : DecodesArm w 0x33 (decodeReg w (baseDecoded w)) := by
  unfold decodeReg
  simp only [decodeRType_funct3, decodeRType_funct7]
  refine .ite (fun h => .of_some rfl ⟨rfl, fun hop => encode_op .add hop h⟩) fun _ => ?_
  refine .ite (fun h => .of_some rfl ⟨rfl, fun hop => encode_op .sub hop h⟩) fun _ => ?_
  refine .ite (fun h => .of_some rfl ⟨rfl, fun hop => encode_op .sll hop h⟩) fun _ => ?_
  refine .ite (fun h => .of_some rfl ⟨rfl, fun hop => encode_op .slt hop h⟩) fun _ => ?_
  refine .ite (fun h => .of_some rfl ⟨rfl, fun hop => encode_op .sltu hop h⟩) fun _ => ?_
  refine .ite (fun h => .of_some rfl ⟨rfl, fun hop => encode_op .xor hop h⟩) fun _ => ?_
  refine .ite (fun h => .of_some rfl ⟨rfl, fun hop => encode_op .srl hop h⟩) fun _ => ?_
  refine .ite (fun h => .of_some rfl ⟨rfl, fun hop => encode_op .sra hop h⟩) fun _ => ?_
  refine .ite (fun h => .of_some rfl ⟨rfl, fun hop => encode_op .or hop h⟩) fun _ => ?_
  refine .ite (fun h => .of_some rfl ⟨rfl, fun hop => encode_op .and hop h⟩) fun _ => ?_
  exact .of_none rfl

theorem decodeImm_spec : DecodesArm w 0x13 (decodeImm w (baseDecoded w)) := by
  unfold decodeImm
  simp only [decodeIType_imm, immI_and_shamt, decodeIType_funct3]
  have hfunct7 := baseDecoded_funct7 w
  refine .ite (fun h => .of_some rfl ⟨rfl, fun hop => encode_opImm .addi hop h⟩) fun _ => ?_
  refine .ite (fun h => .of_some rfl ⟨rfl, fun hop => encode_opImm .slti hop h⟩) fun _ => ?_
  refine .ite (fun h => .of_some rfl ⟨rfl, fun hop => encode_opImm .sltiu hop h⟩) fun _ => ?_
  refine .ite (fun h => .of_some rfl ⟨rfl, fun hop => encode_opImm .xori hop h⟩) fun _ => ?_
  refine .ite (fun h => .of_some rfl ⟨rfl, fun hop => encode_opImm .ori hop h⟩) fun _ => ?_
  refine .ite (fun h => .of_some rfl ⟨rfl, fun hop => encode_opImm .andi hop h⟩) fun _ => ?_
  refine .ite (fun h => .of_some rfl ⟨rfl, fun hop =>
    encode_shift .slli hop (h.imp_right hfunct7.symm.trans)⟩) fun _ => ?_
  refine .ite (fun h => .of_some rfl ⟨rfl, fun hop =>
    encode_shift .srli hop (h.imp_right hfunct7.symm.trans)⟩) fun _ => ?_
  refine .ite (fun h => .of_some rfl ⟨rfl, fun hop =>
    encode_shift .srai hop (h.imp_right hfunct7.symm.trans)⟩) fun _ => ?_
  exact .of_none rfl

theorem decodeLoad_spec : DecodesArm w 0x03 (decodeLoad w (baseDecoded w)) := by
  intro i
  unfold decodeLoad
  simp only [decodeIType_imm, decodeIType_funct3]
  by_cases h1 : w.extractLsb' 12 3 = 0
  · rw [h1]
    rintro ⟨⟩
    exact ⟨rfl, fun hop => encode_load .lb hop h1⟩
  by_cases h2 : w.extractLsb' 12 3 = 1
  · rw [h2]
    rintro ⟨⟩
    exact ⟨rfl, fun hop => encode_load .lh hop h2⟩
  by_cases h3 : w.extractLsb' 12 3 = 2
  · rw [h3]
    rintro ⟨⟩
    exact ⟨rfl, fun hop => encode_load .lw hop h3⟩
  by_cases h4 : w.extractLsb' 12 3 = 4
  · rw [h4]
    rintro ⟨⟩
    exact ⟨rfl, fun hop => encode_load .lbu hop h4⟩
  by_cases h5 : w.extractLsb' 12 3 = 5
  · rw [h5]
    rintro ⟨⟩
    exact ⟨rfl, fun hop => encode_load .lhu hop h5⟩
  rw [if_neg h1, if_neg h2, if_neg h3, if_neg h4, if_neg h5]
  rintro ⟨⟩

theorem decodeStore_spec : DecodesArm w 0x23 (decodeStore w (baseDecoded w)) := by
  intro i
  unfold decodeStore
  simp only [decodeSType_imm, decodeSType_funct3]
  by_cases h1 : w.extractLsb' 12 3 = 0
  · rw [h1]
    rintro ⟨⟩
    exact ⟨rfl, fun hop => encode_store .sb hop h1⟩
  by_cases h2 : w.extractLsb' 12 3 = 1
  · rw [h2]
    rintro ⟨⟩
    exact ⟨rfl, fun hop => encode_store .sh hop h2⟩
  by_cases h3 : w.extractLsb' 12 3 = 2
  · rw [h3]
    rintro ⟨⟩
    exact ⟨rfl, fun hop => encode_store .sw hop h3⟩
  rw [if_neg h1, if_neg h2, if_neg h3]
  rintro ⟨⟩

theorem decodeBranch_spec : DecodesArm w 0x63 (decodeBranch w (baseDecoded w)) := by
  intro i
  unfold decodeBranch
  simp only [decodeBType_imm, decodeBType_funct3]
  by_cases h1 : w.extractLsb' 12 3 = 0
  · rw [h1]
    rintro ⟨⟩
    exact ⟨rfl, fun hop => encode_branch .beq hop h1⟩
  by_cases h2 : w.extractLsb' 12 3 = 1
  · rw [h2]
    rintro ⟨⟩
    exact ⟨rfl, fun hop => encode_branch .bne hop h2⟩
  by_cases h3 : w.extractLsb' 12 3 = 4
  · rw [h3]
    rintro ⟨⟩
    exact ⟨rfl, fun hop => encode_branch .blt hop h3⟩
  by_cases h4 : w.extractLsb' 12 3 = 5
  · rw [h4]
    rintro ⟨⟩
    exact ⟨rfl, fun hop => encode_branch .bge hop h4⟩
  by_cases h5 : w.extractLsb' 12 3 = 6
  · rw [h5]
    rintro ⟨⟩
    exact ⟨rfl, fun hop => encode_branch .bltu hop h5⟩
  by_cases h6 : w.extractLsb' 12 3 = 7
  · rw [h6]
    rintro ⟨⟩
    exact ⟨rfl, fun hop => encode_branch .bgeu hop h6⟩
  rw [if_neg h1, if_neg h2, if_neg h3, if_neg h4, if_neg h5, if_neg h6]
  rintro ⟨⟩

theorem decodeLui_spec : DecodesArm w 0x37 (decodeLui w (baseDecoded w)) := by
  intro i
  unfold decodeLui
  simp only [decodeUType_imm]
  rintro ⟨⟩
  exact ⟨rfl, encode_lui⟩

theorem decodeAuipc_spec : DecodesArm w 0x17 (decodeAuipc w (baseDecoded w)) := by
  intro i
  unfold decodeAuipc
  simp only [decodeUType_imm]
  rintro ⟨⟩
  exact ⟨rfl, encode_auipc⟩

theorem decodeJal_spec : DecodesArm w 0x6F (decodeJal w (baseDecoded w)) := by
  intro i
  unfold decodeJal
  simp only [decodeJType_imm]
  rintro ⟨⟩
  exact ⟨rfl, encode_jal⟩

theorem decodeJalr_spec : DecodesArm w 0x67 (decodeJalr w (baseDecoded w)) := by
  intro i
  unfold decodeJalr
  simp only [decodeIType_imm, decodeIType_funct3]
  split_ifs with h1 <;> rintro ⟨⟩
  exact ⟨rfl, fun hop => encode_jalr hop h1⟩

theorem decodeSystem_spec : DecodesArm w 0x73 (decodeSystem w (baseDecoded w)) := by
  intro i
  unfold decodeSystem
  simp only [decodeIType_funct3]
  split_ifs with h1 h2 <;> rintro ⟨⟩
  · exact ⟨by rw [h1.2]; rfl, fun hop => encodeLoose_system hop h1.1 (immI_eq_of_imm rfl h1.2)⟩
  · exact ⟨by rw [h2.2]; rfl, fun hop => encodeLoose_system hop h2.1 (immI_eq_of_imm rfl h2.2)⟩

end

/-! ## `decode_instruction` -/

/-- The decoded record of a word is the one the tables give for the instruction that the
    decoder finds. -/
theorem decodesTo_of_kind {w : Word} {i : Instr}
    (h : (decodeInstruction w).kind.instr (.ofWord w) = some i) :
    DecodesTo w (w.extractLsb' 0 7) (decodeInstruction w) i := by
  suffices harms : DecodesArm w (w.extractLsb' 0 7) (decodeInstruction w) from harms i h
  have hop : (baseDecoded w).opcode = w.extractLsb' 0 7 := extractOpcode_eq w
  unfold decodeInstruction
  simp only [hop]
  refine .ite (fun h => ?_) fun _ => ?_
  · rw [h]; exact decodeReg_spec
  refine .ite (fun h => ?_) fun _ => ?_
  · rw [h]; exact decodeImm_spec
  refine .ite (fun h => ?_) fun _ => ?_
  · rw [h]; exact decodeLoad_spec
  refine .ite (fun h => ?_) fun _ => ?_
  · rw [h]; exact decodeStore_spec
  refine .ite (fun h => ?_) fun _ => ?_
  · rw [h]; exact decodeBranch_spec
  refine .ite (fun h => ?_) fun _ => ?_
  · rw [h]; exact decodeLui_spec
  refine .ite (fun h => ?_) fun _ => ?_
  · rw [h]; exact decodeAuipc_spec
  refine .ite (fun h => ?_) fun _ => ?_
  · rw [h]; exact decodeJal_spec
  refine .ite (fun h => ?_) fun _ => ?_
  · rw [h]; exact decodeJalr_spec
  refine .ite (fun h => ?_) fun _ => ?_
  · rw [h]; exact decodeSystem_spec
  exact .of_none rfl

/-! ## The instruction of a word is found -/

section

variable (f : Operands)

theorem instr_regKind (o : RegOp) : o.kind.instr f = some (.op o f.rd f.rs1 f.rs2) := by
  cases o <;> rfl

theorem instr_immKind (o : ImmOp) : o.kind.instr f = some (.opImm o f.rd f.rs1 f.immI) := by
  cases o <;> rfl

theorem instr_shiftKind (o : ShiftOp) : o.kind.instr f = some (.shift o f.rd f.rs1 f.shamt) := by
  cases o <;> rfl

theorem instr_loadKind (o : LoadOp) : o.kind.instr f = some (.load o f.rd f.rs1 f.immI) := by
  cases o <;> rfl

theorem instr_storeKind (o : StoreOp) : o.kind.instr f = some (.store o f.rs1 f.rs2 f.immS) := by
  cases o <;> rfl

theorem instr_branchKind (o : BranchOp) : o.kind.instr f = some (.branch o f.rs1 f.rs2 f.immB) := by
  cases o <;> rfl

end

section

variable {w : Word} {i : Instr}

theorem kind_decodeReg {o : RegOp} (h : o.funct = (w.extractLsb' 25 7, w.extractLsb' 12 3)) :
    (decodeReg w (baseDecoded w)).kind = o.kind := by
  obtain ⟨h7, h3⟩ := Prod.ext_iff.mp h
  dsimp only at h7 h3
  simp only [decodeReg, decodeRType_funct3, decodeRType_funct7, ← h7, ← h3]
  cases o <;> rfl

theorem kind_decodeImm {o : ImmOp} (h : o.funct3 = w.extractLsb' 12 3) :
    (decodeImm w (baseDecoded w)).kind = o.kind := by
  simp only [decodeImm, decodeIType_funct3, ← h]
  cases o <;> rfl

theorem kind_decodeImm_shift {o : ShiftOp}
    (h : o.funct = (w.extractLsb' 25 7, w.extractLsb' 12 3)) :
    (decodeImm w (baseDecoded w)).kind = o.kind := by
  obtain ⟨h7, h3⟩ := Prod.ext_iff.mp h
  dsimp only at h7 h3
  simp only [decodeImm, decodeIType_funct3, baseDecoded_funct7, ← h7, ← h3]
  cases o <;> rfl

theorem kind_decodeLoad {o : LoadOp} (h : o.funct3 = w.extractLsb' 12 3) :
    (decodeLoad w (baseDecoded w)).kind = o.kind := by
  simp only [decodeLoad, decodeIType_funct3, ← h]
  cases o <;> rfl

theorem kind_decodeStore {o : StoreOp} (h : o.funct3 = w.extractLsb' 12 3) :
    (decodeStore w (baseDecoded w)).kind = o.kind := by
  simp only [decodeStore, decodeSType_funct3, ← h]
  cases o <;> rfl

theorem kind_decodeBranch {o : BranchOp} (h : o.funct3 = w.extractLsb' 12 3) :
    (decodeBranch w (baseDecoded w)).kind = o.kind := by
  simp only [decodeBranch, decodeBType_funct3, ← h]
  cases o <;> rfl

theorem kind_decodeJalr (h : w.extractLsb' 12 3 = 0) :
    (decodeJalr w (baseDecoded w)).kind = .jalr := by
  simp only [decodeJalr, decodeIType_funct3, h]
  rfl

theorem kind_decodeSystem {imm : BitVec 12} (h : w.extractLsb' 12 3 = 0 ∧ immI w = imm)
    (himm : imm = 0 ∨ imm = 1) : (decodeSystem w (baseDecoded w)).kind =
      if imm = 0 then .ecall else .ebreak := by
  simp only [decodeSystem, decodeIType_funct3, decodeIType_imm, h.1, h.2]
  rcases himm with rfl | rfl <;> rfl

theorem instr_of_kind {d : DecodedInstruction} {kind : InstructionKind} {f : Operands}
    (hd : d.kind = kind) (h : kind.instr f = some i) : d.kind.instr f = some i := hd ▸ h

/-- The decoder finds the instruction of a word. -/
theorem kind_of_instrOf (h : instrOf w = some i) :
    (decodeInstruction w).kind.instr (.ofWord w) = some i := by
  have hopcode : (baseDecoded w).opcode = w.extractLsb' 0 7 := extractOpcode_eq w
  rw [decodeInstruction, hopcode]
  unfold instrOf at h
  dsimp only at h
  split at h
  next hop =>
    obtain ⟨o, ho, rfl⟩ := Option.map_eq_some_iff.mp h
    rw [hop]
    exact instr_of_kind (kind_decodeReg (funct_of_byFunct ho)) (instr_regKind _ o)
  next hop =>
    rw [hop]
    split at h
    next o ho =>
      cases h
      exact instr_of_kind (kind_decodeImm (funct_of_byFunct ho)) (instr_immKind _ o)
    next =>
      obtain ⟨o, ho, rfl⟩ := Option.map_eq_some_iff.mp h
      exact instr_of_kind (kind_decodeImm_shift (funct_of_byFunct ho)) (instr_shiftKind _ o)
  next hop =>
    obtain ⟨o, ho, rfl⟩ := Option.map_eq_some_iff.mp h
    rw [hop]
    exact instr_of_kind (kind_decodeLoad (funct_of_byFunct ho)) (instr_loadKind _ o)
  next hop =>
    obtain ⟨o, ho, rfl⟩ := Option.map_eq_some_iff.mp h
    rw [hop]
    exact instr_of_kind (kind_decodeStore (funct_of_byFunct ho)) (instr_storeKind _ o)
  next hop =>
    obtain ⟨o, ho, rfl⟩ := Option.map_eq_some_iff.mp h
    rw [hop]
    exact instr_of_kind (kind_decodeBranch (funct_of_byFunct ho)) (instr_branchKind _ o)
  next hop => rw [hop]; exact h
  next hop => rw [hop]; exact h
  next hop => rw [hop]; exact h
  next hop =>
    split at h
    next hfunct3 =>
      rw [hop]
      exact instr_of_kind (kind_decodeJalr hfunct3) h
    next => cases h
  next hop =>
    rw [hop]
    split at h
    next hsystem =>
      exact instr_of_kind (kind_decodeSystem hsystem (Or.inl rfl)) h
    next =>
      split at h
      next hsystem =>
        exact instr_of_kind (kind_decodeSystem hsystem (Or.inr rfl)) h
      next => cases h
  next => cases h

end

/-- **The decoder agrees with the formats of the ISA**: the instruction it finds in a word is
    the one the word has. -/
theorem instrOf_eq (w : Word) : instrOf w = (decodeInstruction w).kind.instr (.ofWord w) := by
  refine Option.ext fun i => ⟨kind_of_instrOf, fun h => ?_⟩
  rw [← (decodesTo_of_kind h).encodes rfl]
  exact instrOf_encodeLoose _ _ i

theorem decodesTo_of_instrOf {w : Word} {i : Instr} (h : instrOf w = some i) :
    DecodesTo w (w.extractLsb' 0 7) (decodeInstruction w) i :=
  decodesTo_of_kind (kind_of_instrOf h)

theorem instrOf_eq_none {w : Word} :
    instrOf w = none ↔ isValidInstruction (decodeInstruction w) = false := by
  rw [instrOf_eq, InstructionKind.instr_eq_none, isValidInstruction]
  simp

theorem isValidInstruction_of_instrOf {w : Word} {i : Instr} (h : instrOf w = some i) :
    isValidInstruction (decodeInstruction w) = true := by
  rw [← Bool.not_eq_false, ← instrOf_eq_none, h]
  exact Option.some_ne_none i

end RvPipeline
