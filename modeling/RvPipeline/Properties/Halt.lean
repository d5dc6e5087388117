import RvPipeline.Pipeline.Progress

/-!
# After the halt

`run_pipeline_cycle` looks for halts in flight, not at the halt flag, so what a
further call does is a question of its own.

Results:

* `halted_stays_iff`: when the CPU halts nothing is in flight, and further calls
  leave the state alone exactly if there is no word behind the halt; otherwise the
  next call fetches that word.
* `not_haltIsTerminal_ecall`: and a few calls later it has been executed.
-/

namespace RvPipeline

open Isa

/-! ## Further calls -/

/-- The machine after a call of `run_pipeline_cycle`. -/
def called (m : Machine) : Machine := stateOf (runPipelineCycle m)

/-- Registers, memory, `pc`, halt flag, instruction count and write log. -/
def visible (m : Machine) : Arch × List MemoryWrite := (archOf m.cpu, m.cpu.memoryWrites)

/-- No number of further calls changes anything. -/
def HaltIsTerminal (m : Machine) : Prop := ∀ k, visible (called^[k] m) = visible m

/-- Nothing is in flight. -/
structure Drained (m : Machine) : Prop where
  ifId : m.pipeline.ifId.valid = false
  idEx : m.pipeline.idEx.valid = false
  exMem : m.pipeline.exMem.valid = false
  memWb : m.pipeline.memWb.valid = false

/-- The call performs no memory access. -/
def Quiet (m : Machine) : Prop :=
  m.pipeline.exMem.valid = true → m.pipeline.exMem.control.memRead = false ∧
    m.pipeline.exMem.control.memWrite = false

section

variable {m : Machine}

theorem haltIsInFlight_drained (hd : Drained m) : haltIsInFlight m.pipeline = false := by
  rw [haltIsInFlight, hd.idEx, hd.exMem, hd.memWb]
  rfl

/-- The machine behind `stage_MEM`, if it performs no memory access. -/
def afterBubble (m : Machine) (nextMemWb : MEMWBRegister) : Machine where
  cpu := cpuAfterWB m.cpu m.pipeline.memWb
  pipeline := { m.pipeline.clearNext with nextMemWb := nextMemWb }

/-- A call without memory access does not throw. -/
theorem called_of_quiet (hq : Quiet m) : ∃ nextMemWb : MEMWBRegister,
    nextMemWb.valid = m.pipeline.exMem.valid ∧
      called m = afterMEM (afterBubble m nextMemWb) := by
  rw [called, runPipelineCycle_run]
  cases hv : m.pipeline.exMem.valid with
  | false =>
    have hrun := stageMEM_bubble
      (m := ⟨cpuAfterWB m.cpu m.pipeline.memWb, m.pipeline.clearNext⟩) hv
    exact ⟨{}, rfl, by rw [hrun]; rfl⟩
  | true =>
    obtain ⟨hr, hw⟩ := hq hv
    have hrun := stageMEM_run_none
      (m := ⟨cpuAfterWB m.cpu m.pipeline.memWb, m.pipeline.clearNext⟩) hv hr hw
    exact ⟨_, rfl, by rw [hrun]; rfl⟩

theorem redirects_bubble {p : PipelineRegisters} (hv : p.idEx.valid = false) :
    redirects p = false := by
  rw [redirects, hv]
  rfl

theorem stalls_bubble {p : PipelineRegisters} (hv : p.idEx.valid = false ∨ p.ifId.valid = false) :
    stalls p = false := by
  have hstall : (detectRawHazard p).stall = false := by
    unfold detectRawHazard
    rcases hv with hv | hv
    · cases hi : p.ifId.valid with
      | false => rfl
      | true => simp [writesRegister, hv]
    · rw [hv]
      rfl
  rw [stalls, hstall, Bool.and_false]

theorem cpuAfterEX_bubble {cpu : CPU} {p : PipelineRegisters} (hv : p.idEx.valid = false) :
    cpuAfterEX cpu p = cpu := by
  have hres : resolvesBranch p = false := by rw [resolvesBranch, hv, Bool.false_and]
  rw [cpuAfterEX, redirects_bubble hv, hres]
  rfl

/-- A call with nothing in flight fetches the next word, if there is one. -/
theorem called_of_drained (hd : Drained m) :
    visible (called m) = ({ archOf m.cpu with
      pc := if m.cpu.CanFetch then (fetched m.cpu).predictedNextPc else m.cpu.pc },
      m.cpu.memoryWrites) ∧
    (called m).pipeline.ifId = (if m.cpu.CanFetch then fetched m.cpu else {}) ∧
    (called m).pipeline.idEx = {} ∧ (called m).pipeline.exMem = {} ∧
    (called m).pipeline.memWb.valid = false := by
  obtain ⟨nextMemWb, hnext, hcall⟩ := called_of_quiet (m := m)
    (fun hv => by rw [hd.exMem] at hv; cases hv)
  obtain ⟨b, hb⟩ : ∃ b, b = afterBubble m nextMemWb := ⟨_, rfl⟩
  rw [← hb] at hcall
  have hcpu : cpuAfterEX b.cpu b.pipeline = m.cpu := by
    rw [hb]
    exact (cpuAfterEX_bubble hd.idEx).trans (cpuAfterWB_bubble hd.memWb)
  have hstall : stalls b.pipeline = false := by rw [hb]; exact stalls_bubble (Or.inl hd.idEx)
  have hnextIdEx : nextIdEx m.cpu b.pipeline = {} := by
    have htakes : takes b.pipeline = false := by
      rw [hb, takes]
      exact (congrArg _ hd.ifId).trans (Bool.and_false _)
    rw [nextIdEx, htakes]
    rfl
  have hstop : fetchStops m.cpu b.pipeline = false := by
    have hflight : haltIsInFlight b.pipeline = false := by
      have h := haltIsInFlight_drained hd
      rw [hb]
      exact h
    rw [fetchStops, hnextIdEx, hflight]
    rfl
  have hpc : pcAfterIF m.cpu b.pipeline =
      if m.cpu.CanFetch then (fetched m.cpu).predictedNextPc else m.cpu.pc := by
    rw [pcAfterIF, hstop, hstall]
    by_cases hc : m.cpu.CanFetch <;> simp [hc]
  rw [hcall]
  refine ⟨?_, ?_, ?_, ?_, ?_⟩
  · rw [← hpc]
    unfold visible afterMEM
    simp only [hcpu]
    rfl
  · change nextIfId (cpuAfterEX b.cpu b.pipeline) b.pipeline = _
    rw [hcpu, nextIfId, hstop, hstall, if_neg Bool.false_ne_true, if_neg Bool.false_ne_true]
  · change nextIdEx (cpuAfterEX b.cpu b.pipeline) b.pipeline = _
    rw [hcpu, hnextIdEx]
  · change nextExMem b.pipeline = _
    rw [hb, nextExMem]
    exact if_pos (by rw [show (afterBubble m nextMemWb).pipeline.idEx.valid = false from hd.idEx]; rfl)
  · change b.pipeline.nextMemWb.valid = false
    rw [hb]
    exact hnext.trans hd.exMem

/-- **With no word behind the halt**, nothing changes any more. -/
theorem haltIsTerminal_of_drained (hd : Drained m) (hc : ¬ m.cpu.CanFetch) : HaltIsTerminal m := by
  have hkeep : ∀ k, Drained (called^[k] m) ∧ visible (called^[k] m) = visible m := by
    intro k
    induction k with
    | zero => exact ⟨hd, rfl⟩
    | succ k ih =>
      obtain ⟨hd', hv⟩ := ih
      have harch : archOf (called^[k] m).cpu = archOf m.cpu := congrArg Prod.fst hv
      have hc' : ¬ (called^[k] m).cpu.CanFetch := by
        have hpc := congrArg Arch.pc harch
        have hmem := congrArg Arch.mem harch
        change (called^[k] m).cpu.pc = m.cpu.pc at hpc
        change (called^[k] m).cpu.memory = m.cpu.memory at hmem
        rwa [CPU.CanFetch, hpc, hmem]
      obtain ⟨hvis, hif, hid, hex, hwb⟩ := called_of_drained hd'
      rw [Function.iterate_succ_apply']
      refine ⟨⟨?_, ?_, ?_, hwb⟩, ?_⟩
      · rw [hif, if_neg hc']
      · rw [hid]
      · rw [hex]
      · rw [hvis, if_neg hc', ← hv]
        rfl
  exact fun k => (hkeep k).2

/-! ## A word behind the halt -/

/-- Every call counts the instruction it finds in `MEM/WB`. -/
theorem called_instructionCount (m : Machine) : (called m).cpu.stats.instructionCount =
    m.cpu.stats.instructionCount + m.pipeline.memWb.valid.toNat := instructionCount_cycle m

theorem called_memWb (hq : Quiet m) :
    (called m).pipeline.memWb.valid = m.pipeline.exMem.valid := by
  obtain ⟨nextMemWb, hnext, hcall⟩ := called_of_quiet hq
  rw [hcall]
  exact hnext

theorem called_exMem (hq : Quiet m) : (called m).pipeline.exMem.valid = m.pipeline.idEx.valid ∧
    (m.pipeline.idEx.valid = true →
      (called m).pipeline.exMem.control = m.pipeline.idEx.control) := by
  obtain ⟨nextMemWb, -, hcall⟩ := called_of_quiet hq
  rw [hcall]
  change (nextExMem (afterBubble m nextMemWb).pipeline).valid = _ ∧
    (_ → (nextExMem (afterBubble m nextMemWb).pipeline).control = _)
  have hidEx : (afterBubble m nextMemWb).pipeline.idEx = m.pipeline.idEx := rfl
  unfold nextExMem
  rw [hidEx]
  cases hv : m.pipeline.idEx.valid with
  | false => exact ⟨rfl, fun h => absurd h Bool.false_ne_true⟩
  | true =>
    cases m.pipeline.idEx.control.branch <;> cases m.pipeline.idEx.control.jump <;>
      exact ⟨rfl, fun _ => rfl⟩

theorem called_idEx (hq : Quiet m) (hidEx : m.pipeline.idEx.valid = false)
    (hifId : m.pipeline.ifId.valid = true)
    (hv : isValidInstruction (decodeInstruction m.pipeline.ifId.instruction) = true) :
    (called m).pipeline.idEx.valid = true ∧ (called m).pipeline.idEx.control =
      (decodeInstruction m.pipeline.ifId.instruction).control := by
  obtain ⟨nextMemWb, -, hcall⟩ := called_of_quiet hq
  rw [hcall]
  obtain ⟨b, hb⟩ : ∃ b, b = afterBubble m nextMemWb := ⟨_, rfl⟩
  have hif : b.pipeline.ifId = m.pipeline.ifId := by rw [hb]; rfl
  have hid : b.pipeline.idEx.valid = false := by rw [hb]; exact hidEx
  have htakes : takes b.pipeline = true := by
    rw [takes, redirects_bubble hid, stalls_bubble (Or.inl hid), hif, hifId]
    rfl
  rw [← hb]
  change (nextIdEx (cpuAfterEX b.cpu b.pipeline) b.pipeline).valid = true ∧
    (nextIdEx (cpuAfterEX b.cpu b.pipeline) b.pipeline).control = _
  rw [nextIdEx, htakes, hif, hv]
  exact ⟨rfl, rfl⟩

/-- The next word is only predicted to follow itself if it is a conditional branch. -/
theorem fetched_loop {cpu : CPU} (h : (fetched cpu).predictedNextPc = cpu.pc) :
    ∃ i, instrOf (cpu.memory.word cpu.pc) = some i ∧ i.isBranch = true := by
  have hpred := fetched_predicts cpu
  rw [h] at hpred
  by_contra hno
  have hb : (instrOf (cpu.memory.word cpu.pc)).any Instr.isBranch = false := by
    rw [← Bool.not_eq_true, Option.any_eq_true]
    exact hno
  have hnext := hpred.of_not_branch hb
  simp at hnext

/-- **With a word behind the halt**, further calls execute it. -/
theorem not_haltIsTerminal_of_drained (hd : Drained m) (hc : m.cpu.CanFetch) :
    ¬ HaltIsTerminal m := by
  intro hkeep
  have hcount : ∀ k, (called^[k] m).cpu.stats.instructionCount = m.cpu.stats.instructionCount :=
    fun k => congrArg (fun x : Arch × List MemoryWrite => x.1.instret) (hkeep k)
  obtain ⟨hvis, hif, hid, hex, -⟩ := called_of_drained hd
  rw [if_pos hc] at hvis hif
  have hloop : (fetched m.cpu).predictedNextPc = m.cpu.pc := by
    have h1 := hkeep 1
    rw [Function.iterate_one, hvis] at h1
    exact congrArg (fun x : Arch × List MemoryWrite => x.1.pc) h1
  obtain ⟨i, hi, hb⟩ := fetched_loop hloop
  have hdec := (decodesTo_of_instrOf hi).record
  have hvalid : isValidInstruction (decodeInstruction (m.cpu.memory.word m.cpu.pc)) = true :=
    isValidInstruction_of_instrOf hi
  obtain ⟨hfv, -, hfw⟩ := fetched_fields m.cpu
  have hcontrol : (decodeInstruction (m.cpu.memory.word m.cpu.pc)).control = i.control := by
    rw [hdec]
  -- the branch goes through the pipeline, one stage a call
  have hq₁ : Quiet (called m) := fun h => by rw [hex] at h; cases h
  obtain ⟨hid₂, hc₂⟩ := called_idEx hq₁ (by rw [hid]) (by rw [hif, hfv]) (by rw [hif, hfw, hvalid])
  rw [hif, hfw, hcontrol] at hc₂
  have hex₂ := (called_exMem hq₁).1
  rw [hid] at hex₂
  have hq₂ : Quiet (called (called m)) := fun h => by rw [hex₂] at h; cases h
  obtain ⟨hex₃, hc₃⟩ := called_exMem hq₂
  have hc₃ := (hc₃ hid₂).trans hc₂
  have hq₃ : Quiet (called (called (called m))) := fun _ => by
    rw [hc₃, control_memRead, control_memWrite]
    exact ⟨(Instr.plain_of_flow (Or.inl hb)).1, (Instr.plain_of_flow (Or.inl hb)).2.1⟩
  have hwb₄ := (called_memWb hq₃).trans (hex₃.trans hid₂)
  have hcount₅ := called_instructionCount (called^[4] m)
  have hwb : (called^[4] m).pipeline.memWb.valid = true := hwb₄
  rw [hwb, hcount 4] at hcount₅
  have hsame := hcount 5
  change (called (called^[4] m)).cpu.stats.instructionCount = _ at hsame
  rw [hsame] at hcount₅
  simp at hcount₅

end

/-! ## The halt -/

/-- The last word taken is the `ecall` or `ebreak` at the address before `pc`. -/
theorem Finished.last_halts {m₀ m : Machine} {t : Trace} (h₀ : Initial m₀) (h : Finished m₀ t m) :
    ∃ p x, t.issued = p ++ [x] ∧ (instrOf x.word).any Instr.isHalt = true ∧
      m.cpu.pc = x.pc + 4 := by
  have hh := h.halted
  rcases h.path.dest with hnil | ⟨p, x, hp, -, hx⟩
  · rw [hnil] at hh
    have hrun : (archOf m₀.cpu).halted = false := h₀.halted
    rw [replay_nil, hrun] at hh
    cases hh
  · have hstate := h.state
    rw [hp] at hh hstate
    have hrun := hx.running.1
    cases hi : instrOf x.word with
    | none =>
      rw [replay_skipped hi] at hh
      rw [show ((replay instrOf (archOf m₀.cpu) p).goto (x.pc + 4)).halted = false from hrun] at hh
      cases hh
    | some i =>
      rw [replay_instr hi, Arch.exec_halted] at hh
      rw [show ((replay instrOf (archOf m₀.cpu) p).goto x.pc).halted = false from hrun,
        Bool.false_or] at hh
      refine ⟨p, x, hp, hi ▸ hh, ?_⟩
      have hpc := congrArg Arch.pc hstate
      rw [replay_instr hi, Arch.exec_pc] at hpc
      change m.cpu.pc = _ at hpc
      rw [hpc]
      cases i with
      | ecall | ebreak => rfl
      | _ => cases hh

/-- **After the halt.** The `ecall` or `ebreak` is the last word taken, nothing is in
    flight, and further calls change nothing exactly if the next word lies
    outside memory; otherwise the next call fetches it. -/
theorem halted_stays_iff {m₀ m : Machine} {t : Trace} (h₀ : Initial m₀) (h : HaltsIn m₀ t m) :
    (∃ p x, t.issued = p ++ [x] ∧ (instrOf x.word).any Instr.isHalt = true ∧
      m.cpu.pc = x.pc + 4) ∧
    Drained m ∧ (HaltIsTerminal m ↔ m.cpu.memorySize < m.cpu.pc.toNat + 4) ∧
    (m.cpu.pc.toNat + 4 ≤ m.cpu.memorySize → (called m).pipeline.ifId.valid = true ∧
      (called m).pipeline.ifId.pc = m.cpu.pc ∧
      (called m).pipeline.ifId.instruction = m.cpu.memory.word m.cpu.pc) := by
  have hfin := h.finished h₀
  obtain ⟨hif, hid, hex, hwb⟩ := hfin.drained
  have hd : Drained m := ⟨hif, hid, hex, hwb⟩
  refine ⟨hfin.last_halts h₀, hd, ?_, fun hc => ?_⟩
  · have hcan : m.cpu.memorySize < m.cpu.pc.toNat + 4 ↔ ¬ m.cpu.CanFetch := not_le.symm
    rw [hcan]
    exact ⟨fun hterm hc => not_haltIsTerminal_of_drained hd hc hterm, haltIsTerminal_of_drained hd⟩
  · have hcan : m.cpu.CanFetch := hc
    obtain ⟨-, hnext, -⟩ := called_of_drained hd
    rw [hnext, if_pos hcan]
    exact fetched_fields m.cpu

/-- An `ecall` with no word behind it. -/
theorem lone_ecall_terminal : ∃ t m, HaltsIn (.ofProgram [0x00000073]) t m ∧ HaltIsTerminal m := by
  obtain ⟨t, m, hm, hx⟩ := exists_haltsIn (.ofProgram [0x00000073]) 5
    (fun x => decide (x.2.cpu.memorySize < x.2.cpu.pc.toNat + 4)) (by decide +kernel)
  have hinit : Initial (.ofProgram [0x00000073]) := ⟨rfl, rfl⟩
  obtain ⟨-, -, hiff, -⟩ := halted_stays_iff hinit hm
  exact ⟨t, m, hm, hiff.mpr (of_decide_eq_true hx)⟩

/-- **Five calls after the halt** the `addi x1, x0, 99` behind the `ecall` has retired. -/
theorem not_haltIsTerminal_ecall : ∃ t m, HaltsIn (.ofProgram [0x00000073, 0x06300093]) t m ∧
    m.cpu.readReg 1 = 0#32 ∧ (called^[5] m).cpu.readReg 1 = 99#32 ∧ ¬ HaltIsTerminal m := by
  obtain ⟨t, m, hm, hx⟩ := exists_haltsIn (.ofProgram [0x00000073, 0x06300093]) 5
    (fun x => x.2.cpu.readReg 1 == 0#32 && (called^[5] x.2).cpu.readReg 1 == 99#32)
    (by decide +kernel)
  rw [Bool.and_eq_true, beq_iff_eq, beq_iff_eq] at hx
  refine ⟨t, m, hm, hx.1, hx.2, fun hterm => ?_⟩
  have hregs : (called^[5] m).cpu.regs = m.cpu.regs :=
    congrArg (fun x : Arch × List MemoryWrite => x.1.regs) (hterm 5)
  have h99 := hx.2
  rw [CPU.readReg, hregs, ← CPU.readReg, hx.1] at h99
  cases h99

end RvPipeline
