import RvPipeline.Isa.Run

/-!
# The parts of an instruction's effect

`Arch.exec` taken apart: which register an instruction writes and with which
value, the memory after it, and where execution continues. A machine that does
these at different times (register file, memory and program counter are written
by different units) is compared with one part at a time.
-/

namespace RvPipeline.Isa

/-- The register an instruction writes. -/
def Instr.dest : Instr → Option Reg
  | .op _ rd _ _ | .opImm _ rd _ _ | .shift _ rd _ _ | .load _ rd _ _ | .lui rd _ | .auipc rd _
  | .jal rd _ | .jalr rd _ _ => some rd
  | .store .. | .branch .. | .ecall | .ebreak => none

/-- `lb`, `lh`, `lw`, `lbu` or `lhu`. -/
def Instr.isLoad : Instr → Bool
  | .load .. => true
  | _ => false

/-- `sb`, `sh` or `sw`. -/
def Instr.isStore : Instr → Bool
  | .store .. => true
  | _ => false

/-- A conditional branch. -/
def Instr.isBranch : Instr → Bool
  | .branch .. => true
  | _ => false

/-- The value an instruction writes to its register. -/
def Arch.result (s : Arch) : Instr → Word
  | .op o _ rs1 rs2 => o.eval (s.reg rs1) (s.reg rs2)
  | .opImm o _ rs1 imm => o.eval (s.reg rs1) (imm.signExtend 32)
  | .shift o _ rs1 shamt => o.eval (s.reg rs1) shamt
  | .load o _ rs1 imm => o.eval s.mem (s.reg rs1 + imm.signExtend 32)
  | .lui _ imm => imm ++ 0#12
  | .auipc _ imm => s.pc + (imm ++ 0#12)
  | .jal .. | .jalr .. => s.pc + 4
  | .store .. | .branch .. | .ecall | .ebreak => 0

/-- The memory after an instruction. -/
def Arch.memAfter (s : Arch) : Instr → Mem
  | .store o rs1 rs2 imm => o.eval s.mem (s.reg rs1 + imm.signExtend 32) (s.reg rs2)
  | _ => s.mem

/-- Where execution continues after an instruction. -/
def Arch.nextPc (s : Arch) : Instr → Word
  | .branch o rs1 rs2 offset =>
    if o.taken (s.reg rs1) (s.reg rs2) then s.pc + branchOffset offset else s.pc + 4
  | .jal _ offset => s.pc + jumpOffset offset
  | .jalr _ rs1 imm => (s.reg rs1 + imm.signExtend 32) &&& ~~~1#32
  | _ => s.pc + 4

/-! ## `exec` and its parts -/

/-- Write the result of an instruction to its register. -/
def Arch.writeResult (s : Arch) (i : Instr) (v : Word) : Arch :=
  match i.dest with
  | some rd => s.setReg rd v
  | none => s

theorem Arch.exec_regs (s : Arch) (i : Instr) :
    (s.exec i).regs = (s.writeResult i (s.result i)).regs := by
  cases i <;> rfl

@[simp] theorem Arch.exec_mem (s : Arch) (i : Instr) : (s.exec i).mem = s.memAfter i := by
  cases i <;> simp [Arch.exec, Arch.retire, Arch.memAfter]

theorem Arch.exec_pc (s : Arch) (i : Instr) : (s.exec i).pc = s.nextPc i := by
  cases i <;> simp [Arch.exec, Arch.retire, Arch.nextPc]

theorem Arch.reg_writeResult (s : Arch) (i : Instr) (v : Word) (r : Reg) :
    (s.writeResult i v).reg r = if i.dest = some r ∧ r ≠ 0#5 then v else s.reg r := by
  unfold Arch.writeResult
  cases i.dest with
  | none => simp
  | some rd =>
    simp only [Arch.reg_setReg, Option.some.injEq]
    by_cases h : r = rd
    · subst h; simp
    · simp [h, Ne.symm h]

/-- The registers only depend on `regs`. -/
theorem Arch.reg_congr {s s' : Arch} (h : s.regs = s'.regs) (r : Reg) : s.reg r = s'.reg r := by
  unfold Arch.reg
  rw [h]

theorem Arch.reg_exec (s : Arch) (i : Instr) (r : Reg) :
    (s.exec i).reg r = if i.dest = some r ∧ r ≠ 0#5 then s.result i else s.reg r := by
  rw [Arch.reg_congr (s.exec_regs i), Arch.reg_writeResult]

theorem Arch.memAfter_of_not_store {s : Arch} {i : Instr} (h : i.isStore = false) :
    s.memAfter i = s.mem := by
  cases i with
  | store => cases h
  | _ => rfl

theorem Arch.nextPc_of_sequential {s : Arch} {i : Instr} (hb : i.isBranch = false)
    (hj : i.isJump = false) : s.nextPc i = s.pc + 4 := by
  cases i with
  | branch => cases hb
  | jal => cases hj
  | jalr => cases hj
  | _ => rfl

/-- What changes the control flow neither accesses memory nor stops the hart. -/
theorem Instr.plain_of_flow {i : Instr} (h : i.isBranch = true ∨ i.isJump = true) :
    i.isLoad = false ∧ i.isStore = false ∧ i.isHalt = false := by
  cases i with
  | branch | jal | jalr => exact ⟨rfl, rfl, rfl⟩
  | _ => rcases h with h | h <;> cases h

end RvPipeline.Isa
