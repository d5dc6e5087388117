import RvPipeline.Pipeline.Invariant
import RvPipeline.Isa.Observe

/-!
# Write-back and memory stage

The first half of a cycle, the only place where it can throw. The instruction in
`MEM/WB` retires (`afterWB`) and the one in `EX/MEM` accesses memory: either the
access lies outside of memory (`cycle_throws`), or the cycle comes to the stages
behind (`cycle_throughMEM`).
-/

namespace RvPipeline

open Isa

/-! ## Write-back and memory stage -/

/-- What `stage_WB` and `stage_MEM` have done when both are through. -/
structure AfterMEM (s₀ : Arch) (g : Slots) (m m₁ : Machine) : Prop where
  regs : m₁.cpu.regs = (replay instrOf s₀ g.accessed).regs
  halted : m₁.cpu.halted = (replay instrOf s₀ g.accessed).halted
  instret : m₁.cpu.stats.instructionCount = (replay instrOf s₀ g.accessed).instret
  mem : m₁.cpu.memory = (replay instrOf s₀ g.executed).mem
  log : m₁.cpu.memoryWrites = m.cpu.memoryWrites ++
    g.mem.toList.flatMap (observeAt instrOf writesOf (replay instrOf s₀ g.accessed))
  pc : m₁.cpu.pc = m.cpu.pc
  config : m₁.cpu.config = m.cpu.config
  predictor : m₁.cpu.branchPredictor = m.cpu.branchPredictor
  stats : ∃ n, m₁.cpu.stats = { m.cpu.stats with instructionCount := n }
  latches : ∃ nextMemWb : MEMWBRegister,
    m₁.pipeline = { m.pipeline.clearNext with nextMemWb := nextMemWb } ∧
    Slot (fun x i => MemWbOf ((replay instrOf s₀ g.accessed).goto x.pc) x i nextMemWb)
      g.mem nextMemWb.valid

section

variable {s₀ : Arch} {g : Slots} {m : Machine}

/-- What `stage_WB` has done. -/
structure AfterWB (s₀ : Arch) (g : Slots) (cpu cpu₁ : CPU) : Prop where
  regs : cpu₁.regs = (replay instrOf s₀ g.accessed).regs
  halted : cpu₁.halted = (replay instrOf s₀ g.accessed).halted
  instret : cpu₁.stats.instructionCount = (replay instrOf s₀ g.accessed).instret
  rest : ∃ regs halted n, cpu₁ = { cpu with
    regs := regs, halted := halted, stats.instructionCount := n }

theorem writeReg_regs {cpu : CPU} {s : Arch} (h : cpu.regs = s.regs) (r : Reg) (v : Word) :
    (cpu.writeReg r v).regs = (s.setReg r v).regs := by
  unfold CPU.writeReg Arch.setReg
  by_cases h0 : r = 0#5
  · rw [if_pos h0, if_pos h0, h]
  · rw [if_neg h0, if_neg h0, h]

/-- The write-back stage retires the instruction in its slot. -/
theorem afterWB (hc : Committed s₀ g m) (hl : Latches s₀ g m) :
    AfterWB s₀ g m.cpu (cpuAfterWB m.cpu m.pipeline.memWb) := by
  rcases hl.memWb.dest with ⟨hx, hv⟩ | ⟨x, hx, hn, hv⟩ | ⟨x, i, hx, hi, hv, hs⟩
  · have hw : cpuAfterWB m.cpu m.pipeline.memWb = m.cpu := by simp [cpuAfterWB, hv]
    rw [hw]
    refine ⟨?_, ?_, ?_, _, _, _, rfl⟩
    · rw [Slots.accessed, hx, replay_toList_none, hc.regs]
    · rw [Slots.accessed, hx, replay_toList_none, hc.halted]
    · rw [Slots.accessed, hx, replay_toList_none, hc.instret]
  · have hw : cpuAfterWB m.cpu m.pipeline.memWb = m.cpu := by simp [cpuAfterWB, hv]
    rw [hw]
    refine ⟨?_, ?_, ?_, _, _, _, rfl⟩
    · rw [Slots.accessed, hx, Option.toList_some, replay_skipped hn, hc.regs]
    · rw [Slots.accessed, hx, Option.toList_some, replay_skipped hn, hc.halted]
    · rw [Slots.accessed, hx, Option.toList_some, replay_skipped hn, hc.instret]
  · rw [cpuAfterWB_valid hv]
    refine ⟨?_, ?_, ?_, _, _, _, rfl⟩
    · rw [Slots.accessed, hx, Option.toList_some, replay_instr hi, Arch.exec_regs,
        Arch.writeResult, hs.control, control_regWrite, hs.rd]
      cases hd : i.dest with
      | none => exact hc.regs
      | some rd =>
        rw [hs.value (by rw [hd]; rfl), dest_of_instrOf hi hd]
        exact writeReg_regs (s := (replay instrOf s₀ g.done).goto x.pc) hc.regs _ _
    · rw [Slots.accessed, hx, Option.toList_some, replay_instr hi, Arch.exec_halted, hs.control,
        control_halt, hc.halted]
    · rw [Slots.accessed, hx, Option.toList_some, replay_instr hi, Arch.exec_instret, hc.instret]

/-- The instruction in the memory stage would access a byte that does not exist. -/
def MemFaults (s₀ : Arch) (g : Slots) : Prop :=
  ∃ x ∈ g.mem, (replay instrOf s₀ g.accessed).faults instrOf x.word = true

theorem accessFaults_goto {s : Arch} {pc w : Word} {i : Instr} (h : instrOf w = some i) :
    accessFaults (s.goto pc) i = s.faults instrOf w := by
  simp only [accessFaults, Arch.faults, Arch.accessOf, h, Option.bind_some]
  cases i <;> rfl

/-- A fault leaves the state behind the words before the faulting one. -/
theorem cycle_throws (hc : Committed s₀ g m) (hl : Latches s₀ g m) (hf : MemFaults s₀ g) :
    runPipelineCycle m = .error ramBounds
      { cpu := cpuAfterWB m.cpu m.pipeline.memWb, pipeline := m.pipeline.clearNext } := by
  obtain ⟨regs, halted, n, hrest⟩ := (afterWB hc hl).rest
  obtain ⟨x, hx, hfault⟩ := hf
  rcases hl.exMem.dest with ⟨hm, -⟩ | ⟨y, hm, hn, -⟩ | ⟨y, i, hm, hi, -, hs⟩
  · rw [hm] at hx; cases hx
  · rw [hm] at hx
    cases hx
    simp [Arch.faults, Arch.accessOf, hn] at hfault
  · rw [hm] at hx
    cases hx
    have hmem : (cpuAfterWB m.cpu m.pipeline.memWb).memory =
        ((replay instrOf s₀ g.accessed).goto x.pc).mem := by
      rw [hrest]
      exact hc.mem
    have hrun := stageMEM_fault (m := ⟨cpuAfterWB m.cpu m.pipeline.memWb, m.pipeline.clearNext⟩)
      hs hmem (by rw [accessFaults_goto hi, hfault])
    rw [runPipelineCycle_run, hrun]

/-- The memory stage changes memory, its log and the next latch. -/
theorem AfterWB.afterMEM {cpu : CPU} (h : AfterWB s₀ g m.cpu cpu) {memory : Mem}
    {log : List MemoryWrite} {nextMemWb : MEMWBRegister}
    (hmem : memory = (replay instrOf s₀ g.executed).mem)
    (hlog : log = cpu.memoryWrites ++
      g.mem.toList.flatMap (observeAt instrOf writesOf (replay instrOf s₀ g.accessed)))
    (hslot : Slot (fun x i => MemWbOf ((replay instrOf s₀ g.accessed).goto x.pc) x i nextMemWb)
      g.mem nextMemWb.valid) :
    AfterMEM s₀ g m ⟨{ cpu with memory := memory, memoryWrites := log },
      { m.pipeline.clearNext with nextMemWb := nextMemWb }⟩ := by
  obtain ⟨regs, halted, n, hrest⟩ := h.rest
  refine ⟨h.regs, h.halted, h.instret, hmem, ?_, ?_, ?_, ?_, ?_, nextMemWb, rfl, hslot⟩
  · rw [hlog, hrest]
  · rw [hrest]
  · rw [hrest]
  · rw [hrest]
  · exact ⟨n, by rw [hrest]⟩

/-- Without a fault the cycle gets through the memory stage. -/
theorem cycle_throughMEM (hc : Committed s₀ g m) (hl : Latches s₀ g m) (hf : ¬ MemFaults s₀ g) :
    ∃ m₁, runPipelineCycle m = .ok () (afterMEM m₁) ∧ AfterMEM s₀ g m m₁ := by
  have hwb := afterWB hc hl
  have hmem : (cpuAfterWB m.cpu m.pipeline.memWb).memory = (replay instrOf s₀ g.accessed).mem := by
    obtain ⟨regs, halted, n, hrest⟩ := hwb.rest
    rw [hrest]
    exact hc.mem
  rcases hl.exMem.dest with ⟨hm, hv⟩ | ⟨y, hm, hn, hv⟩ | ⟨y, i, hm, hi, hv, hs⟩
  · have hrun := stageMEM_bubble
      (m := ⟨cpuAfterWB m.cpu m.pipeline.memWb, m.pipeline.clearNext⟩) hv
    refine ⟨_, by rw [runPipelineCycle_run, hrun], hwb.afterMEM ?_ ?_ ?_⟩
    · rw [Slots.executed, hm, replay_toList_none]
      exact hmem
    · rw [hm]
      exact (List.append_nil _).symm
    · rw [hm]
      exact .bubble
  · have hrun := stageMEM_bubble
      (m := ⟨cpuAfterWB m.cpu m.pipeline.memWb, m.pipeline.clearNext⟩) hv
    refine ⟨_, by rw [runPipelineCycle_run, hrun], hwb.afterMEM ?_ ?_ ?_⟩
    · rw [Slots.executed, hm, Option.toList_some, replay_skipped hn]
      exact hmem
    · rw [hm, Option.toList_some, List.flatMap_singleton, observeAt_none hn]
      exact (List.append_nil _).symm
    · rw [hm]
      exact .skipped hn
  · have hnf : accessFaults ((replay instrOf s₀ g.accessed).goto y.pc) i = false := by
      rw [accessFaults_goto hi, ← Bool.not_eq_true]
      exact fun h => hf ⟨y, hm, h⟩
    obtain ⟨v, hload, hrun⟩ := stageMEM_ok
      (m := ⟨cpuAfterWB m.cpu m.pipeline.memWb, m.pipeline.clearNext⟩) hs hmem hnf
    refine ⟨_, by rw [runPipelineCycle_run, hrun], hwb.afterMEM ?_ ?_ ?_⟩
    · rw [Slots.executed, hm, Option.toList_some, replay_instr hi, Arch.exec_mem]
    · rw [hm, Option.toList_some, List.flatMap_singleton, observeAt_some hi]
    · rw [hm]
      exact .instr hi (memWbOf_nextMemWbOf hs hload)

end

end RvPipeline
