import RvPipeline.Isa.Logic

/-!
# The assembly programs

The programs `search.s`, `program1.s`, `program3.s` and `merge_sort.s` of `asmFiles`, as
the instructions that the assembler makes of them. The linker script puts them at address 0.
A label is the index of the instruction it stands at; what is behind `.org` is data, and
belongs to the memory in which a program is started.
-/

namespace RvPipeline

open Isa

/-- The offset field of a branch at the `k`-th instruction to the label `j`. -/
def branchTo (k j : ℤ) : BitVec 12 := BitVec.ofInt 12 (2 * (j - k))

/-- The offset field of a jump at the `k`-th instruction to the label `j`. -/
def jumpTo (k j : ℤ) : BitVec 20 := BitVec.ofInt 20 (2 * (j - k))

/-- `search.s`. -/
def searchCode : Code where
  base := 0
  instrs :=
    [ .opImm .ori 2 0 0x80,
      -- `start`
      .opImm .ori 4 0 0x01,
      .opImm .ori 10 0 0x04,
      .store .sw 2 0 0,
      .load .lw 11 2 4,
      .load .lw 12 2 8,
      .opImm .addi 13 2 12,
      -- `loop`
      .load .lw 14 13 0,
      .op .sub 15 14 11,
      .branch .beq 15 0 (branchTo 9 14),
      .op .add 13 13 10,
      .op .sub 12 12 4,
      .branch .beq 12 0 (branchTo 12 15),
      .branch .beq 0 0 (branchTo 13 7),
      -- `found`
      .store .sw 2 13 0,
      -- `notfound`
      .ecall ]

/-- The routine `multiply` of `program1.s` and `program3.s`, up to the label `end_multiply`.
    Registers are `sp` (2), `t0`, `t1`, `t2` (5, 6, 7) and `t3` (28). -/
def multiplyInstrs : List Instr :=
  [ .load .lw 5 2 0,
    .load .lw 6 2 4,
    .opImm .addi 7 0 0,
    -- `multiply_loop`
    .branch .beq 5 0 (branchTo 3 10),
    .opImm .andi 28 5 1,
    .branch .beq 28 0 (branchTo 5 7),
    .op .add 7 7 6,
    -- `skip_add`
    .shift .slli 6 6 1,
    .shift .srli 5 5 1,
    .jal 0 (jumpTo 9 3) ]

/-- `program1.s`, with any two operands in place of 6 and 7. Further registers are `ra` (1),
    `a0` (10) and `t4` (29). -/
def program1Code (multiplicand multiplier : BitVec 12) : Code where
  base := 0
  instrs :=
    [ .opImm .addi 2 0 0x300,
      .opImm .addi 2 2 (-8),
      .opImm .addi 5 0 multiplicand,
      .store .sw 2 5 4,
      .opImm .addi 5 0 multiplier,
      .store .sw 2 5 0,
      .jal 1 (jumpTo 6 11),
      .opImm .addi 2 2 8,
      .opImm .addi 29 0 0x40,
      .store .sw 29 10 0,
      .ecall ] ++
    -- `multiply`
    multiplyInstrs ++
    -- `end_multiply`
    [ .opImm .addi 10 7 0,
      .jalr 0 1 0 ]

/-- `program3.s`, with any date in place of 2025, 8 and 22. Further registers are `ra` (1),
    `s2`, `s3` (18, 19) and `t4` (29). -/
def program3Code (currentYear currentMonth currentDay : BitVec 12) : Code where
  base := 0
  instrs :=
    [ .opImm .addi 2 0 0x300,
      .opImm .addi 5 0 currentYear,
      .opImm .addi 6 0 2000,
      .op .sub 5 5 6,
      .opImm .addi 2 2 (-8),
      .store .sw 2 5 4,
      .opImm .addi 5 0 365,
      .store .sw 2 5 0,
      .jal 1 (jumpTo 8 27),
      .load .lw 18 2 4,
      .opImm .addi 2 2 8,
      .opImm .addi 5 0 currentMonth,
      .opImm .addi 6 0 1,
      .op .sub 5 5 6,
      .opImm .addi 2 2 (-8),
      .store .sw 2 5 4,
      .opImm .addi 5 0 30,
      .store .sw 2 5 0,
      .jal 1 (jumpTo 18 27),
      .load .lw 19 2 4,
      .opImm .addi 2 2 8,
      .opImm .addi 5 0 currentDay,
      .op .add 5 5 19,
      .op .add 5 5 18,
      .opImm .addi 29 0 0x40,
      .store .sw 29 5 0,
      .ecall ] ++
    -- `multiply`
    multiplyInstrs ++
    -- `end_multiply`
    [ .store .sw 2 7 4,
      .jalr 0 1 0 ]

/-- `merge_sort.s`: the code at `_start`. -/
def mergeSortStart : List Instr :=
  [ .opImm .addi 2 0 0x700,
    .opImm .addi 12 0 0x304,
    .opImm .addi 25 0 0x300,
    .load .lw 24 25 0,
    .opImm .addi 6 0 1,
    .op .srl 13 24 6,
    .op .or 9 0 12,
    .op .or 18 0 13,
    .jal 1 (jumpTo 8 29),
    .opImm .addi 6 0 1,
    .op .srl 5 24 6,
    .op .sub 13 24 5,
    .opImm .addi 6 0 2,
    .op .sll 5 5 6,
    .opImm .addi 12 0 0x304,
    .op .add 12 12 5,
    .op .or 19 0 12,
    .op .or 20 0 13,
    .jal 1 (jumpTo 18 29),
    .op .or 12 0 9,
    .op .or 13 0 18,
    .op .or 14 0 19,
    .op .or 15 0 20,
    .opImm .addi 5 0 0x500,
    .opImm .addi 2 2 (-4),
    .store .sw 2 5 0,
    .jal 1 (jumpTo 26 47),
    .opImm .addi 2 2 4,
    .ecall ]

/-- `merge_sort.s`: the routine `insertion_sort`. -/
def insertionSortInstrs : List Instr :=
  [ .opImm .addi 5 0 4,
    .opImm .addi 7 0 2,
    .op .sll 6 13 7,
    -- `is_outer`
    .op .sltu 4 5 6,
    .branch .beq 4 0 (branchTo 33 46),
    .op .add 31 12 5,
    .load .lw 30 31 0,
    -- `is_inner`
    .branch .beq 31 12 (branchTo 36 43),
    .load .lw 16 31 (-4),
    .op .slt 4 30 16,
    .branch .beq 4 0 (branchTo 39 43),
    .store .sw 31 16 0,
    .opImm .addi 31 31 (-4),
    .jal 0 (jumpTo 42 36),
    -- `is_inner_end`
    .store .sw 31 30 0,
    .opImm .addi 5 5 4,
    .jal 0 (jumpTo 45 32),
    -- `is_end`
    .jalr 0 1 0 ]

/-- `merge_sort.s`: the routine `merge`. -/
def mergeInstrs : List Instr :=
  [ .load .lw 5 2 0,
    -- `m_1`
    .branch .bne 13 0 (branchTo 48 51),
    -- `m_2`
    .branch .bne 15 0 (branchTo 49 51),
    .jal 0 (jumpTo 50 81),
    -- `m_3`
    .branch .beq 15 0 (branchTo 51 67),
    .branch .beq 13 0 (branchTo 52 74),
    .load .lw 6 12 0,
    .load .lw 7 14 0,
    .op .slt 4 6 7,
    .branch .beq 4 0 (branchTo 56 62),
    .store .sw 5 6 0,
    .opImm .addi 5 5 4,
    .opImm .addi 12 12 4,
    .opImm .addi 13 13 (-1),
    .jal 0 (jumpTo 61 48),
    -- `m_3a`
    .store .sw 5 7 0,
    .opImm .addi 5 5 4,
    .opImm .addi 14 14 4,
    .opImm .addi 15 15 (-1),
    .jal 0 (jumpTo 66 48),
    -- `m_4`
    .load .lw 6 12 0,
    .store .sw 5 6 0,
    .opImm .addi 5 5 4,
    .opImm .addi 13 13 (-1),
    .opImm .addi 12 12 4,
    .branch .beq 13 0 (branchTo 72 81),
    .jal 0 (jumpTo 73 67),
    -- `m_5`
    .load .lw 7 14 0,
    .store .sw 5 7 0,
    .opImm .addi 5 5 4,
    .opImm .addi 15 15 (-1),
    .opImm .addi 14 14 4,
    .branch .beq 15 0 (branchTo 79 81),
    .jal 0 (jumpTo 80 74),
    -- `m_end`
    .jalr 0 1 0 ]

/-- `merge_sort.s`. -/
def mergeSortCode : Code where
  base := 0
  instrs := mergeSortStart ++ insertionSortInstrs ++ mergeInstrs

end RvPipeline
