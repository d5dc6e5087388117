import RvPipeline.Pipeline.Forwarding

/-!
# The pipeline invariant

What holds of the machine between two cycles, for the initial state `s₀` and the
words taken so far, cut into slots `g`:

* `Committed`: the register file is that of the sequential machine after the
  words that have left the pipeline, memory is one instruction further.
* `Latches`: every latch holds the instruction of its slot, with the values the
  sequential machine computes, and a load is never right in front of a reader.
* `Front`: the words taken are a prefetched path, and the word in `IF/ID` is the
  one that comes next unless the branch in `ID/EX` was mispredicted.
-/

namespace RvPipeline

open Isa

/-- `next` is a possible prediction for what follows the word `x`. -/
def Predicts (type : BranchPredictorType) (x : Fetched) (next : Word) : Prop :=
  ∃ taken : Bool, (type = .alwaysNotTaken → taken = false) ∧ (type = .alwaysTaken → taken = true) ∧
    next = match instrOf x.word with
      | some i => if i.isBranch && taken then x.pc + i.immediate else x.pc + 4
      | none => x.pc + 4

theorem Predicts.of_not_branch {type : BranchPredictorType} {x : Fetched} {next : Word}
    (h : Predicts type x next) (hb : (instrOf x.word).any Instr.isBranch = false) :
    next = x.pc + 4 := by
  obtain ⟨taken, -, -, hn⟩ := h
  rw [hn]
  cases hi : instrOf x.word with
  | none => rfl
  | some i =>
    rw [hi, Option.any_some] at hb
    simp [hb]

/-- The word in `IF/ID`. -/
def ifWord (m : Machine) : Fetched := ⟨m.pipeline.ifId.pc, m.pipeline.ifId.instruction⟩

/-- The address at the front: of the word in `IF/ID`, or of the next fetch. -/
def frontPc (m : Machine) : Word := if m.pipeline.ifId.valid then m.pipeline.ifId.pc else m.cpu.pc

/-- `ID/EX` holds `i` with operands copied from the register file. -/
structure IdExSlot (cpu : CPU) (x : Fetched) (i : Instr) (idEx : IDEXRegister) : Prop where
  holds : IdExOf x i idEx
  rs1Value : idEx.rs1Value = cpu.readReg (rs1Of x.word)
  rs2Value : idEx.rs2Value = cpu.readReg (rs2Of x.word)
  predicted : Predicts cpu.config.branchPredictorType x idEx.predictedNextPc

/-- `j` reads the register the load `i` writes. -/
def Isa.Instr.feeds (i j : Instr) : Bool :=
  i.isLoad && i.dest.any fun rd => rd != 0#5 && j.reads rd

/-- The instruction of `x` reads the register the load of `u` writes. -/
def feedsWord (u x : Fetched) : Bool :=
  match instrOf u.word, instrOf x.word with
  | some i, some j => i.feeds j
  | _, _ => false

/-- Registers, halt flag and retire count are those after `g.done`; memory is that
    after `g.accessed`. -/
structure Committed (s₀ : Arch) (g : Slots) (m : Machine) : Prop where
  regs : m.cpu.regs = (replay instrOf s₀ g.done).regs
  halted : m.cpu.halted = (replay instrOf s₀ g.done).halted
  instret : m.cpu.stats.instructionCount = (replay instrOf s₀ g.done).instret
  mem : m.cpu.memory = (replay instrOf s₀ g.accessed).mem

/-- Every latch holds the instruction of its slot. -/
structure Latches (s₀ : Arch) (g : Slots) (m : Machine) : Prop where
  memWb : Slot (fun x i => MemWbOf ((replay instrOf s₀ g.done).goto x.pc) x i m.pipeline.memWb)
    g.wb m.pipeline.memWb.valid
  exMem : Slot (fun x i => ExMemOf ((replay instrOf s₀ g.accessed).goto x.pc) x i m.pipeline.exMem)
    g.mem m.pipeline.exMem.valid
  idEx : Slot (fun x i => IdExSlot m.cpu x i m.pipeline.idEx) g.ex m.pipeline.idEx.valid
  spaced : ∀ x i y j, g.mem = some x → instrOf x.word = some i → g.ex = some y →
    instrOf y.word = some j → i.feeds j = false

/-- The prediction for the instruction in `ID/EX` is right, if there is one. -/
def OnPath (s₀ : Arch) (g : Slots) (m : Machine) : Prop :=
  m.pipeline.idEx.valid = true → m.pipeline.idEx.predictedNextPc = (replay instrOf s₀ g.taken).pc

/-- The words taken are a prefetched path, and `IF/ID` holds the next word of it
    unless `ID/EX` was mispredicted; `c₀` is the cycle count at the start. -/
structure Front (s₀ : Arch) (c₀ : ℕ) (g : Slots) (m : Machine) : Prop where
  path : Prefetched instrOf s₀ g.taken
  pc : frontPc m =
    if m.pipeline.idEx.valid then m.pipeline.idEx.predictedNextPc
    else (replay instrOf s₀ g.taken).pc
  predicted : m.pipeline.ifId.valid = true →
    Predicts m.cpu.config.branchPredictorType (ifWord m) m.pipeline.ifId.predictedNextPc
  ahead : m.pipeline.ifId.valid = true → m.cpu.pc = m.pipeline.ifId.predictedNextPc
  next : m.pipeline.ifId.valid = true → OnPath s₀ g m → FetchedNext instrOf s₀ g.taken (ifWord m)
  quiet : g.ex = none → m.pipeline.ifId.valid = true →
    ∀ u ∈ g.taken.getLast?, (instrOf u.word).any Instr.isStore = false
  idle : m.pipeline.ifId.valid = false →
    (g.taken = [] ∧ m.cpu.stats.clockCycles = c₀) ∨
      (replay instrOf s₀ g.taken).halted = true ∨ ¬ m.cpu.CanFetch

/-- The invariant of the pipeline between two cycles. -/
structure Inv (m₀ : Machine) (g : Slots) (m : Machine) : Prop where
  config : m.cpu.config = m₀.cpu.config
  committed : Committed (archOf m₀.cpu) g m
  latches : Latches (archOf m₀.cpu) g m
  front : Front (archOf m₀.cpu) m₀.cpu.stats.clockCycles g m

/-- **The invariant holds at the start.** -/
theorem Inv.start {m₀ : Machine} (h : Initial m₀) : Inv m₀ {} m₀ := by
  have hp := h.pipeline
  have hifId : m₀.pipeline.ifId.valid = false := by rw [hp]
  have hidEx : m₀.pipeline.idEx.valid = false := by rw [hp]
  have hexMem : m₀.pipeline.exMem.valid = false := by rw [hp]
  have hmemWb : m₀.pipeline.memWb.valid = false := by rw [hp]
  refine ⟨rfl, ⟨rfl, rfl, rfl, rfl⟩, ⟨?_, ?_, ?_, ?_⟩, ⟨.nil, ?_, ?_, ?_, ?_, ?_, ?_⟩⟩
  · rw [hmemWb]; exact .bubble
  · rw [hexMem]; exact .bubble
  · rw [hidEx]; exact .bubble
  · intro x i y j hx
    cases hx
  · rw [hidEx, frontPc, hifId]
    rfl
  · intro hv; rw [hifId] at hv; cases hv
  · intro hv; rw [hifId] at hv; cases hv
  · intro hv; rw [hifId] at hv; cases hv
  · intro _ hv; rw [hifId] at hv; cases hv
  · exact fun _ => Or.inl ⟨rfl, rfl⟩

/-! ## Consequences -/

section

variable {s₀ : Arch} {g : Slots} {m : Machine}

theorem Committed.readReg (h : Committed s₀ g m) (r : Reg) :
    m.cpu.readReg r = (replay instrOf s₀ g.done).reg r := by
  unfold CPU.readReg Arch.reg
  rw [h.regs]

/-- **Forwarding** delivers the operands of the instruction in `ID/EX`. -/
theorem Latches.operands (hc : Committed s₀ g m) (hl : Latches s₀ g m) {x : Fetched} {i : Instr}
    (hx : g.ex = some x) (hi : instrOf x.word = some i) (hs : IdExSlot m.cpu x i m.pipeline.idEx) :
    OperandsOf ((replay instrOf s₀ g.executed).goto x.pc) x.word i (operandsOf m.pipeline) := by
  have hload : ∀ r, i.reads r = true → ∀ y j, g.mem = some y → instrOf y.word = some j →
      j.isLoad = true → j.dest = some r → r = 0#5 := by
    intro r hr y j hy hj hjl hd
    have hf := hl.spaced y j x i hy hj hx hi
    simpa [Instr.feeds, hjl, hd, hr] using hf
  obtain ⟨h1, h2⟩ := resolveForwarding_eq m.pipeline.idEx m.pipeline
  constructor
  · intro hr
    rw [operandsOf, h1, hs.holds.rs1, hs.rs1Value, hc.readReg, memWbOperand_slot _ hl.memWb]
    exact exMemOperand_slot _ hl.exMem (hload _ hr)
  · intro hr
    rw [operandsOf, h2, hs.holds.rs2, hs.rs2Value, hc.readReg, memWbOperand_slot _ hl.memWb]
    exact exMemOperand_slot _ hl.exMem (hload _ hr)

/-- A redirect is a wrong prediction. -/
theorem Latches.redirects_eq (hc : Committed s₀ g m) (hl : Latches s₀ g m) :
    redirects m.pipeline = (m.pipeline.idEx.valid &&
      m.pipeline.idEx.predictedNextPc != (replay instrOf s₀ g.taken).pc) := by
  rcases hl.idEx.dest with ⟨-, hv⟩ | ⟨y, -, -, hv⟩ | ⟨x, i, hx, hi, hv, hs⟩
  · simp [redirects, hv]
  · simp [redirects, hv]
  · have ho := hl.operands hc hx hi hs
    have hpc : (replay instrOf s₀ g.taken).pc =
        ((replay instrOf s₀ g.executed).goto x.pc).nextPc i := by
      rw [Slots.taken, hx, Option.toList_some, replay_instr hi, Arch.exec_pc]
    rw [redirects, hv, hs.holds.control, control_branch, control_jump, hpc, Bool.true_and]
    by_cases hc : i.isBranch = true ∨ i.isJump = true
    · have htgt : exTarget m.pipeline.idEx (operandsOf m.pipeline) = _ :=
        exTarget_eq hi hs.holds rfl ho hc
      have hor : (i.isBranch || i.isJump) = true := by simpa using hc
      rw [htgt, hor, Bool.true_and]
    · rw [not_or, Bool.not_eq_true, Bool.not_eq_true] at hc
      have hpred := hs.predicted.of_not_branch (by rw [hi]; exact hc.1)
      rw [hc.1, hc.2, hpred, Arch.nextPc_of_sequential hc.1 hc.2]
      simp

/-- Something in the slot `y` stops the hart. -/
theorem replay_halted_slot {P : Fetched → Instr → Prop} {p : List Fetched} {y : Option Fetched}
    {v : Bool} {c : ControlSignals} (h : Slot P y v)
    (hc : ∀ x i, P x i → c = i.control) :
    (replay instrOf s₀ (p ++ y.toList)).halted =
      ((replay instrOf s₀ p).halted || v && c.halt) := by
  rcases h.dest with ⟨rfl, rfl⟩ | ⟨x, rfl, hn, rfl⟩ | ⟨x, i, rfl, hi, rfl, hp⟩
  · rw [replay_toList_none]
    simp
  · rw [Option.toList_some, replay_skipped hn]
    simp
  · rw [Option.toList_some, replay_instr hi, Arch.exec_halted, hc x i hp]
    simp

/-- The halt barrier sees every `ecall` and `ebreak` in flight. -/
theorem Latches.halted_taken (hc : Committed s₀ g m) (hl : Latches s₀ g m) :
    (replay instrOf s₀ g.taken).halted = (m.cpu.halted || haltIsInFlight m.pipeline) := by
  rw [Slots.taken, replay_halted_slot hl.idEx (fun _ _ hs => hs.holds.control), Slots.executed,
    replay_halted_slot hl.exMem (fun _ _ hs => hs.control), Slots.accessed,
    replay_halted_slot hl.memWb (fun _ _ hs => hs.control), ← hc.halted, haltIsInFlight]
  cases m.cpu.halted <;> cases m.pipeline.memWb.valid && m.pipeline.memWb.control.halt <;>
    cases m.pipeline.exMem.valid && m.pipeline.exMem.control.halt <;>
    cases m.pipeline.idEx.valid && m.pipeline.idEx.control.halt <;> rfl

/-- A redirect happens exactly if `ID/EX` was mispredicted. -/
theorem Latches.onPath_iff (hc : Committed s₀ g m) (hl : Latches s₀ g m) :
    OnPath s₀ g m ↔ redirects m.pipeline = false := by
  rw [hl.redirects_eq hc, OnPath]
  cases m.pipeline.idEx.valid <;> simp

/-- Between two instructions, the hazard unit asks for a stall exactly if the first
    is a load that feeds the second. -/
theorem detectRawHazard_stall {p : PipelineRegisters} {x : Fetched} {i j : Instr}
    (hv : p.ifId.valid = true) (hj : instrOf p.ifId.instruction = some j)
    (hi : instrOf x.word = some i) (hl : IdExOf x i p.idEx) :
    (detectRawHazard p).stall = i.feeds j := by
  unfold detectRawHazard
  simp only [hv, Bool.not_true, Bool.false_eq_true, if_false]
  rw [isValidInstruction_of_instrOf hj, writesRegister, hl.valid, hl.control, hl.rd,
    control_regWrite, control_memRead]
  cases hd : i.dest with
  | none => simp [Instr.feeds, hd]
  | some rd =>
    have hrd := dest_of_instrOf hi hd
    by_cases h0 : rdOf x.word = 0#5
    · simp [Instr.feeds, hd, hrd, h0]
    · rw [dependsOn_getSourceRegisters hj h0]
      cases hload : i.isLoad <;> cases hr : j.reads (rdOf x.word) <;>
        simp [Instr.feeds, hd, hrd, h0, hload, hr]

/-- **The hazard unit** asks for a stall exactly if the load in `ID/EX` feeds the
    instruction in `IF/ID`. -/
theorem Latches.stall_eq (hl : Latches s₀ g m) : (detectRawHazard m.pipeline).stall =
    (m.pipeline.ifId.valid && g.ex.any fun u => feedsWord u (ifWord m)) := by
  cases hv : m.pipeline.ifId.valid with
  | false =>
    unfold detectRawHazard
    simp [hv]
  | true =>
    rw [Bool.true_and]
    cases hj : instrOf m.pipeline.ifId.instruction with
    | none =>
      have hstall : (detectRawHazard m.pipeline).stall = false := by
        unfold detectRawHazard
        simp [hv, instrOf_eq_none.mp hj]
      rw [hstall]
      cases g.ex with
      | none => rfl
      | some u =>
        simp only [feedsWord, ifWord, hj, Option.any_some]
        cases instrOf u.word <;> rfl
    | some j =>
      have hbubble : m.pipeline.idEx.valid = false → (detectRawHazard m.pipeline).stall = false := by
        intro hw
        unfold detectRawHazard
        simp [hv, isValidInstruction_of_instrOf hj, hw, writesRegister]
      rcases hl.idEx.dest with ⟨hx, hw⟩ | ⟨x, hx, hn, hw⟩ | ⟨x, i, hx, hi, hw, hs⟩
      · rw [hbubble hw, hx]
        rfl
      · rw [hbubble hw, hx]
        simp [feedsWord, hn]
      · rw [detectRawHazard_stall hv hj hi hs.holds, hx]
        simp [feedsWord, ifWord, hi, hj]

end

end RvPipeline
