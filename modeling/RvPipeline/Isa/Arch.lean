import RvPipeline.Isa.Instr

/-!
# The sequential semantics of RV32I

`Arch` is what a program can observe: the registers, the memory, the program
counter, whether the hart has stopped and how many instructions it has
retired. `Arch.exec` executes one instruction at `pc`, as the unprivileged ISA
manual describes it, with two conventions of a bare simulator: `ecall` and
`ebreak` stop the hart after retiring, and nothing traps on alignment.

An access outside memory has no meaning of its own here: `Arch.access` says
which bytes an instruction would touch, and a machine built on `exec` decides
what happens when they do not exist.
-/

namespace RvPipeline.Isa

/-- The architectural state. -/
structure Arch where
  regs : Reg → Word
  mem : Mem
  pc : Word
  halted : Bool
  instret : ℕ

/-! ## Registers -/

/-- Read a register; `x0` reads as zero. -/
def Arch.reg (s : Arch) (r : Reg) : Word := if r = 0#5 then 0#32 else s.regs r

/-- Write a register; writes to `x0` are dropped. -/
def Arch.setReg (s : Arch) (r : Reg) (v : Word) : Arch :=
  if r = 0#5 then s else { s with regs := Function.update s.regs r v }

@[simp] theorem Arch.setReg_mem (s : Arch) (r : Reg) (v : Word) : (s.setReg r v).mem = s.mem := by
  unfold Arch.setReg; split <;> rfl

@[simp] theorem Arch.setReg_pc (s : Arch) (r : Reg) (v : Word) : (s.setReg r v).pc = s.pc := by
  unfold Arch.setReg; split <;> rfl

@[simp] theorem Arch.setReg_halted (s : Arch) (r : Reg) (v : Word) :
    (s.setReg r v).halted = s.halted := by
  unfold Arch.setReg; split <;> rfl

@[simp] theorem Arch.setReg_instret (s : Arch) (r : Reg) (v : Word) :
    (s.setReg r v).instret = s.instret := by
  unfold Arch.setReg; split <;> rfl

theorem Arch.reg_setReg (s : Arch) (r r' : Reg) (v : Word) :
    (s.setReg r v).reg r' = if r' = r ∧ r ≠ 0#5 then v else s.reg r' := by
  unfold Arch.setReg Arch.reg
  by_cases hr : r = 0#5
  · simp [hr]
  · by_cases h : r' = r
    · subst h; simp [hr]
    · simp [hr, h]

/-! ## What the operations compute -/

/-- The value of a register-register operation; shifts use the low five bits of `y`. -/
def RegOp.eval : RegOp → Word → Word → Word
  | .add, x, y => x + y
  | .sub, x, y => x - y
  | .sll, x, y => x <<< (y.toNat % 32)
  | .slt, x, y => if x.toInt < y.toInt then 1 else 0
  | .sltu, x, y => if x < y then 1 else 0
  | .xor, x, y => x ^^^ y
  | .srl, x, y => x >>> (y.toNat % 32)
  | .sra, x, y => x.sshiftRight (y.toNat % 32)
  | .or, x, y => x ||| y
  | .and, x, y => x &&& y

/-- The value of a register-immediate operation; `y` is the sign-extended immediate. -/
def ImmOp.eval : ImmOp → Word → Word → Word
  | .addi, x, y => x + y
  | .slti, x, y => if x.toInt < y.toInt then 1 else 0
  | .sltiu, x, y => if x < y then 1 else 0
  | .xori, x, y => x ^^^ y
  | .ori, x, y => x ||| y
  | .andi, x, y => x &&& y

/-- The value of an immediate shift. -/
def ShiftOp.eval : ShiftOp → Word → BitVec 5 → Word
  | .slli, x, shamt => x <<< shamt.toNat
  | .srli, x, shamt => x >>> shamt.toNat
  | .srai, x, shamt => x.sshiftRight shamt.toNat

/-- The number of bytes a load reads. -/
def LoadOp.bytes : LoadOp → ℕ
  | .lb | .lbu => 1
  | .lh | .lhu => 2
  | .lw => 4

/-- The value a load puts in its register. -/
def LoadOp.eval : LoadOp → Mem → Word → Word
  | .lb, mem, a => (mem.byte a).signExtend 32
  | .lh, mem, a => (mem.half a).signExtend 32
  | .lw, mem, a => mem.word a
  | .lbu, mem, a => (mem.byte a).setWidth 32
  | .lhu, mem, a => (mem.half a).setWidth 32

/-- The number of bytes a store writes. -/
def StoreOp.bytes : StoreOp → ℕ
  | .sb => 1
  | .sh => 2
  | .sw => 4

/-- The memory after a store. -/
def StoreOp.eval : StoreOp → Mem → Word → Word → Mem
  | .sb, mem, a, v => mem.setByte a (v.setWidth 8)
  | .sh, mem, a, v => mem.setHalf a (v.setWidth 16)
  | .sw, mem, a, v => mem.setWord a v

/-- Whether a conditional branch is taken. -/
def BranchOp.taken : BranchOp → Word → Word → Bool
  | .beq, x, y => x == y
  | .bne, x, y => x != y
  | .blt, x, y => x.toInt < y.toInt
  | .bge, x, y => y.toInt ≤ x.toInt
  | .bltu, x, y => x < y
  | .bgeu, x, y => y ≤ x

@[simp] theorem StoreOp.length_eval (o : StoreOp) (mem : Mem) (a v : Word) :
    (o.eval mem a v).length = mem.length := by
  cases o <;> simp [StoreOp.eval]

theorem StoreOp.byte_eval {o : StoreOp} {a b : Word} (h : ¬ Touches a o.bytes b) (mem : Mem)
    (v : Word) : (o.eval mem a v).byte b = mem.byte b := by
  cases o with
  | sb => exact Mem.byte_setByte_of_ne (fun hb => h (touches_one.mpr hb)) _
  | sh => exact Mem.byte_setHalf_of_not_touches h _
  | sw => exact Mem.byte_setWord_of_not_touches h _

/-! ## Executing one instruction -/

/-- Byte offset of a conditional branch. -/
def branchOffset (offset : BitVec 12) : Word := (offset ++ 0#1).signExtend 32

/-- Byte offset of `jal`. -/
def jumpOffset (offset : BitVec 20) : Word := (offset ++ 0#1).signExtend 32

/-- Count the instruction and continue at `pc`. -/
def Arch.retire (s : Arch) (pc : Word) : Arch := { s with pc := pc, instret := s.instret + 1 }

/-- Execute the instruction `i` that stands at `s.pc`. -/
def Arch.exec (s : Arch) : Instr → Arch
  | .op o rd rs1 rs2 => (s.setReg rd (o.eval (s.reg rs1) (s.reg rs2))).retire (s.pc + 4)
  | .opImm o rd rs1 imm =>
    (s.setReg rd (o.eval (s.reg rs1) (imm.signExtend 32))).retire (s.pc + 4)
  | .shift o rd rs1 shamt => (s.setReg rd (o.eval (s.reg rs1) shamt)).retire (s.pc + 4)
  | .load o rd rs1 imm =>
    (s.setReg rd (o.eval s.mem (s.reg rs1 + imm.signExtend 32))).retire (s.pc + 4)
  | .store o rs1 rs2 imm =>
    { s with mem := o.eval s.mem (s.reg rs1 + imm.signExtend 32) (s.reg rs2) }.retire (s.pc + 4)
  | .branch o rs1 rs2 offset =>
    s.retire (if o.taken (s.reg rs1) (s.reg rs2) then s.pc + branchOffset offset else s.pc + 4)
  | .lui rd imm => (s.setReg rd (imm ++ 0#12)).retire (s.pc + 4)
  | .auipc rd imm => (s.setReg rd (s.pc + (imm ++ 0#12))).retire (s.pc + 4)
  | .jal rd offset => (s.setReg rd (s.pc + 4)).retire (s.pc + jumpOffset offset)
  | .jalr rd rs1 imm =>
    (s.setReg rd (s.pc + 4)).retire ((s.reg rs1 + imm.signExtend 32) &&& ~~~1#32)
  | .ecall | .ebreak => { s with halted := true }.retire (s.pc + 4)

/-- The memory access of an instruction: its address and width in bytes. -/
def Arch.access (s : Arch) : Instr → Option (Word × ℕ)
  | .load o _ rs1 imm => some (s.reg rs1 + imm.signExtend 32, o.bytes)
  | .store o rs1 _ imm => some (s.reg rs1 + imm.signExtend 32, o.bytes)
  | _ => none

/-- The bytes an instruction writes: address and width of a store. -/
def Arch.storeAccess (s : Arch) : Instr → Option (Word × ℕ)
  | .store o rs1 _ imm => some (s.reg rs1 + imm.signExtend 32, o.bytes)
  | _ => none

/-- Whether an instruction reads register `r` as its `rs1` or `rs2` operand. -/
def Instr.reads : Instr → Reg → Bool
  | .op _ _ rs1 rs2, r | .store _ rs1 rs2 _, r | .branch _ rs1 rs2 _, r => rs1 == r || rs2 == r
  | .opImm _ _ rs1 _, r | .shift _ _ rs1 _, r | .load _ _ rs1 _, r | .jalr _ rs1 _, r => rs1 == r
  | .lui .., _ | .auipc .., _ | .jal .., _ | .ecall, _ | .ebreak, _ => false

/-- Outcome of a conditional branch in `s`: `some true` if it is taken. -/
def Arch.branchOutcome (s : Arch) : Instr → Option Bool
  | .branch o rs1 rs2 _ => some (o.taken (s.reg rs1) (s.reg rs2))
  | _ => none

/-- `jal` or `jalr`. -/
def Instr.isJump : Instr → Bool
  | .jal .. | .jalr .. => true
  | _ => false

/-- A conditional branch whose taken target is not the next word. -/
def Instr.isBranchAway : Instr → Bool
  | .branch _ _ _ offset => branchOffset offset != 4
  | _ => false

/-- `ecall` or `ebreak`. -/
def Instr.isHalt : Instr → Bool
  | .ecall | .ebreak => true
  | _ => false

@[simp] theorem Arch.exec_instret (s : Arch) (i : Instr) :
    (s.exec i).instret = s.instret + 1 := by
  cases i <;> simp [Arch.exec, Arch.retire]

theorem Arch.exec_halted (s : Arch) (i : Instr) :
    (s.exec i).halted = (s.halted || i.isHalt) := by
  cases i <;> simp [Arch.exec, Arch.retire, Instr.isHalt]

@[simp] theorem Arch.exec_mem_length (s : Arch) (i : Instr) :
    (s.exec i).mem.length = s.mem.length := by
  cases i <;> simp [Arch.exec, Arch.retire]

/-- A store only changes the bytes of its access. -/
theorem Arch.exec_byte {s : Arch} {i : Instr} {b : Word}
    (h : ∀ a n, s.storeAccess i = some (a, n) → ¬ Touches a n b) :
    (s.exec i).mem.byte b = s.mem.byte b := by
  cases i with
  | store o rs1 rs2 imm => exact StoreOp.byte_eval (h _ _ rfl) _ _
  | _ => simp [Arch.exec, Arch.retire]

end RvPipeline.Isa
