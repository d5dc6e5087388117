import RvPipeline.Pipeline.Datapath
import RvPipeline.Pipeline.Lockstep

/-!
# One cycle

`runPipelineCycle` as one function of the machine: `stage_WB` and the stages
behind `stage_MEM` never throw, and what they change is given by `cpuAfterWB`,
`cpuAfterEX`, `nextExMem`, `nextIdEx`, `nextIfId` and `cpuAfterIF`. Which of
three things the decode stage does is decided by `redirects`, `stalls` and
`takes`: drop the word in `IF/ID`, hold it, or take it.
-/

namespace RvPipeline

open Isa State

/-! ## The stages as functions -/

/-- The CPU after `stage_WB`. -/
def cpuAfterWB (cpu : CPU) (memWb : MEMWBRegister) : CPU :=
  if memWb.valid then
    let cpu := if memWb.control.regWrite then
      cpu.writeReg memWb.rd (selectWritebackValue memWb) else cpu
    let cpu := if memWb.control.halt then cpu.halt else cpu
    { cpu with stats.instructionCount := cpu.stats.instructionCount + 1 }
  else cpu

/-- The operands `stage_EX` works on. -/
def operandsOf (p : PipelineRegisters) : ForwardedOperands := resolveForwarding p.idEx p

/-- `stage_EX` redirects the fetch and flushes. -/
def redirects (p : PipelineRegisters) : Bool :=
  p.idEx.valid && (p.idEx.control.branch || p.idEx.control.jump) &&
    p.idEx.predictedNextPc != exTarget p.idEx (operandsOf p)

/-- The outcome of the branch in `ID/EX`. -/
def branchTaken (p : PipelineRegisters) : Bool :=
  evaluateBranch p.idEx.control.branchCondition (operandsOf p).rs1Value (operandsOf p).rs2Value

/-- A conditional branch is in `stage_EX`. -/
def resolvesBranch (p : PipelineRegisters) : Bool := p.idEx.valid && p.idEx.control.branch

/-- The CPU after `stage_EX`. -/
def cpuAfterEX (cpu : CPU) (p : PipelineRegisters) : CPU :=
  { cpu with
    pc := if redirects p then exTarget p.idEx (operandsOf p) else cpu.pc
    branchPredictor := if resolvesBranch p then
      cpu.branchPredictor.update p.idEx.pc (branchTaken p) cpu.config.branchPredictorType
      else cpu.branchPredictor
    stats := { cpu.stats with
      branchPredictions := cpu.stats.branchPredictions + (resolvesBranch p).toNat
      branchMispredictions :=
        cpu.stats.branchMispredictions + (resolvesBranch p && redirects p).toNat } }

/-- The next `EX/MEM` latch. -/
def nextExMem (p : PipelineRegisters) : EXMEMRegister :=
  if !p.idEx.valid then {}
  else if p.idEx.control.branch then
    { nextExMemOf p.idEx (operandsOf p) with
      branchTaken := branchTaken p, branchTarget := exTarget p.idEx (operandsOf p) }
  else if p.idEx.control.jump then
    { nextExMemOf p.idEx (operandsOf p) with
      branchTaken := true, branchTarget := exTarget p.idEx (operandsOf p) }
  else nextExMemOf p.idEx (operandsOf p)

/-- The load-use stall of this cycle. -/
def stalls (p : PipelineRegisters) : Bool := !redirects p && (detectRawHazard p).stall

/-- `stage_ID` takes the word in `IF/ID`. -/
def takes (p : PipelineRegisters) : Bool := !redirects p && !stalls p && p.ifId.valid

/-- The next `ID/EX` latch; `cpu` is the CPU when `stage_ID` runs. -/
def nextIdEx (cpu : CPU) (p : PipelineRegisters) : IDEXRegister :=
  if takes p && isValidInstruction (decodeInstruction p.ifId.instruction) then
    nextIdExOf cpu p.ifId (decodeInstruction p.ifId.instruction)
  else {}

/-- The halt barrier of this cycle. -/
def fetchStops (cpu : CPU) (p : PipelineRegisters) : Bool :=
  (nextIdEx cpu p).control.halt || haltIsInFlight p

/-- The word at `pc` lies in memory. -/
def CPU.CanFetch (cpu : CPU) : Prop := cpu.pc.toNat + 4 ≤ cpu.memory.length

instance (cpu : CPU) : Decidable cpu.CanFetch := inferInstanceAs (Decidable (_ ≤ _))

/-- The `IF/ID` latch `stage_IF` makes. -/
def fetched (cpu : CPU) : IFIDRegister := nextIfIdOf cpu cpu.pc (cpu.memory.word cpu.pc)

/-- The next `IF/ID` latch; `cpu` is the CPU when `stage_ID` and `stage_IF` run. -/
def nextIfId (cpu : CPU) (p : PipelineRegisters) : IFIDRegister :=
  if fetchStops cpu p then {}
  else if stalls p then p.ifId
  else if cpu.CanFetch then fetched cpu
  else {}

/-- The program counter after `stage_IF`. -/
def pcAfterIF (cpu : CPU) (p : PipelineRegisters) : Word :=
  if !fetchStops cpu p && !stalls p && decide cpu.CanFetch then (fetched cpu).predictedNextPc
  else cpu.pc

/-- What the stages behind `stage_MEM` leave; `m` is the machine after `stage_MEM`. -/
def afterMEM (m : Machine) : Machine :=
  let p := m.pipeline
  let cpu := cpuAfterEX m.cpu p
  { cpu := { cpu with
      pc := pcAfterIF cpu p
      stats := { cpu.stats with
        clockCycles := cpu.stats.clockCycles + 1
        stallCycles := cpu.stats.stallCycles + (stalls p).toNat } }
    pipeline := { p with
      nextExMem := nextExMem p, nextIdEx := nextIdEx cpu p, nextIfId := nextIfId cpu p }.commit }

/-! ## The stages run as these functions -/

/-- `stage_ID` makes a bubble or takes an instruction. -/
theorem nextIdEx_cases (cpu : CPU) (p : PipelineRegisters) :
    (nextIdEx cpu p).valid = false ∨ takes p = true ∧ (∃ j, instrOf p.ifId.instruction = some j) ∧
      nextIdEx cpu p = nextIdExOf cpu p.ifId (decodeInstruction p.ifId.instruction) := by
  unfold nextIdEx
  by_cases h : (takes p && isValidInstruction (decodeInstruction p.ifId.instruction)) = true
  · rw [if_pos h]
    rw [Bool.and_eq_true] at h
    refine Or.inr ⟨h.1, Option.ne_none_iff_exists'.mp fun hn => ?_, rfl⟩
    rw [instrOf_eq_none.mp hn] at h
    exact Bool.false_ne_true h.2
  · rw [if_neg h]
    exact Or.inl rfl

theorem stageWB_run (m : Machine) :
    stageWB m = .ok () { m with cpu := cpuAfterWB m.cpu m.pipeline.memWb } := by
  unfold stageWB cpuAfterWB
  simp only [bind, EStateM.bind, get, getThe, MonadStateOf.get, get_run]
  cases hv : m.pipeline.memWb.valid with
  | false => rfl
  | true =>
    cases hr : m.pipeline.memWb.control.regWrite <;>
      cases hh : m.pipeline.memWb.control.halt <;> rfl

/-! ### The memory stage -/

theorem stageMEM_bubble {m : Machine} (h : m.pipeline.exMem.valid = false) :
    stageMEM m = .ok () { m with pipeline.nextMemWb := {} } := by
  simp only [stageMEM, bind, EStateM.bind, get, getThe, MonadStateOf.get, get_run, h]
  rfl

theorem stageMEM_run_none {m : Machine} (hv : m.pipeline.exMem.valid = true)
    (hr : m.pipeline.exMem.control.memRead = false)
    (hw : m.pipeline.exMem.control.memWrite = false) :
    stageMEM m = .ok () { m with pipeline.nextMemWb := nextMemWbOf m.pipeline.exMem } := by
  simp only [stageMEM, bind, EStateM.bind, get, getThe, MonadStateOf.get, get_run, hv, hr, hw]
  rfl

theorem stageMEM_run_read {m : Machine} (hv : m.pipeline.exMem.valid = true)
    (hr : m.pipeline.exMem.control.memRead = true)
    (hw : m.pipeline.exMem.control.memWrite = false) :
    stageMEM m =
      match readMemory m.cpu m.pipeline.exMem.aluResult m.pipeline.exMem.control with
      | .ok v => .ok () { m with
          pipeline.nextMemWb := { nextMemWbOf m.pipeline.exMem with memoryData := v } }
      | .error e => .error e m := by
  simp only [stageMEM, bind, EStateM.bind, get, getThe, MonadStateOf.get, get_run, hv, hr, hw]
  cases h : readMemory m.cpu m.pipeline.exMem.aluResult m.pipeline.exMem.control with
  | ok v =>
    simp only [Bool.not_true, Bool.false_eq_true, if_false, if_true, EStateM.bind, get_run,
      liftExcept_run, h]
    rfl
  | error e =>
    simp only [Bool.not_true, Bool.false_eq_true, if_false, if_true, EStateM.bind, get_run,
      liftExcept_run, h]

theorem stageMEM_run_write {m : Machine} (hv : m.pipeline.exMem.valid = true)
    (hr : m.pipeline.exMem.control.memRead = false)
    (hw : m.pipeline.exMem.control.memWrite = true) :
    stageMEM m =
      match writeMemory m.pipeline.exMem.aluResult m.pipeline.exMem.storeValue
        m.pipeline.exMem.control m.cpu with
      | .ok () cpu => .ok ()
        { cpu := cpu, pipeline := { m.pipeline with nextMemWb := nextMemWbOf m.pipeline.exMem } }
      | .error e cpu => .error e { m with cpu := cpu } := by
  simp only [stageMEM, bind, EStateM.bind, get, getThe, MonadStateOf.get, get_run, hv, hr, hw]
  cases h : writeMemory m.pipeline.exMem.aluResult m.pipeline.exMem.storeValue
    m.pipeline.exMem.control m.cpu with
  | ok a cpu =>
    simp only [Bool.not_true, Bool.false_eq_true, if_false, if_true, EStateM.bind, pure,
      EStateM.pure, onCpu, h]
    rfl
  | error e cpu =>
    simp only [Bool.not_true, Bool.false_eq_true, if_false, if_true, EStateM.bind, pure,
      EStateM.pure, onCpu, h]

/-- The log entries of an instruction. -/
def writesOf (s : Arch) (i : Instr) : List MemoryWrite :=
  (s.storeAccess i).toList.map fun x => ⟨x.1, BitVec.ofNat 32 x.2⟩

theorem writesOf_of_not_store {s : Arch} {i : Instr} (h : i.isStore = false) :
    writesOf s i = [] := by
  cases i with
  | store => cases h
  | _ => rfl

/-- The instruction `i` would access a byte past the end of memory. -/
def accessFaults (s : Arch) (i : Instr) : Bool :=
  (s.access i).any fun x => s.mem.length < x.1.toNat + x.2

section

variable {m : Machine} {s : Arch} {x : Fetched} {i : Instr}

theorem inBounds_iff {a : Word} {n : ℕ} (ha : s.access i = some (a, n))
    (hm : m.cpu.memory = s.mem) : m.cpu.InBounds a n ↔ accessFaults s i = false := by
  simp [accessFaults, ha, CPU.InBounds, hm]

/-- An access outside memory throws and changes nothing. -/
theorem stageMEM_fault (hl : ExMemOf s x i m.pipeline.exMem) (hm : m.cpu.memory = s.mem)
    (hf : accessFaults s i = true) : stageMEM m = .error ramBounds m := by
  cases i with
  | load o rd rs1 imm =>
    have ha : s.access (.load o rd rs1 imm) = some (s.reg rs1 + imm.signExtend 32, o.bytes) := rfl
    have hb : ¬ m.cpu.InBounds (s.reg rs1 + imm.signExtend 32) o.bytes := by
      rw [inBounds_iff ha hm, hf]
      exact fun h => by cases h
    rw [stageMEM_run_read hl.valid (by rw [hl.control]; rfl) (by rw [hl.control]; rfl),
      hl.address _ _ ha, hl.control, readMemory_load, if_neg hb]
  | store o rs1 rs2 imm =>
    have ha : s.access (.store o rs1 rs2 imm) = some (s.reg rs1 + imm.signExtend 32, o.bytes) := rfl
    have hb : ¬ m.cpu.InBounds (s.reg rs1 + imm.signExtend 32) o.bytes := by
      rw [inBounds_iff ha hm, hf]
      exact fun h => by cases h
    rw [stageMEM_run_write hl.valid (by rw [hl.control]; rfl) (by rw [hl.control]; rfl),
      hl.address _ _ ha, hl.control, writeMemory_store, if_neg hb]
  | _ => cases hf

/-- An access inside memory is performed, and nothing else is. -/
theorem stageMEM_ok (hl : ExMemOf s x i m.pipeline.exMem) (hm : m.cpu.memory = s.mem)
    (hf : accessFaults s i = false) : ∃ v, (i.isLoad = true → v = s.result i) ∧
      stageMEM m = .ok ()
        { cpu := { m.cpu with
            memory := s.memAfter i, memoryWrites := m.cpu.memoryWrites ++ writesOf s i }
          pipeline := { m.pipeline with
            nextMemWb := { nextMemWbOf m.pipeline.exMem with memoryData := v } } } := by
  cases hload : i.isLoad with
  | true =>
    cases i with
    | load o rd rs1 imm =>
      have ha : s.access (.load o rd rs1 imm) = some (s.reg rs1 + imm.signExtend 32, o.bytes) := rfl
      have hmem : s.memAfter (.load o rd rs1 imm) = m.cpu.memory := hm.symm
      have hval : o.eval m.cpu.memory (s.reg rs1 + imm.signExtend 32) =
          s.result (.load o rd rs1 imm) := by rw [hm]; rfl
      refine ⟨_, fun _ => rfl, ?_⟩
      rw [hmem, writesOf_of_not_store rfl, List.append_nil,
        stageMEM_run_read hl.valid (by rw [hl.control]; rfl) (by rw [hl.control]; rfl),
        hl.address _ _ ha, hl.control, readMemory_load, if_pos ((inBounds_iff ha hm).mpr hf), hval]
    | _ => cases hload
  | false =>
    refine ⟨0, fun h => absurd h Bool.false_ne_true, ?_⟩
    cases hstore : i.isStore with
    | true =>
      cases i with
      | store o rs1 rs2 imm =>
        have ha : s.access (.store o rs1 rs2 imm) = some (s.reg rs1 + imm.signExtend 32, o.bytes) :=
          rfl
        rw [stageMEM_run_write hl.valid (by rw [hl.control]; rfl) (by rw [hl.control]; rfl),
          hl.address _ _ ha, hl.storeValue _ _ _ _ rfl, hl.control, writeMemory_store,
          if_pos ((inBounds_iff ha hm).mpr hf)]
        simp only [CPU.afterStore, hm]
        rfl
      | _ => cases hstore
    | false =>
      rw [stageMEM_run_none hl.valid (by rw [hl.control, control_memRead, hload])
        (by rw [hl.control, control_memWrite, hstore]), Arch.memAfter_of_not_store hstore, ← hm,
        writesOf_of_not_store hstore, List.append_nil]
      rfl

end

theorem stageEX_finish_run (m : Machine) (next : EXMEMRegister) (idEx : IDEXRegister)
    (target : Word) (control : StageControl) :
    stageEX.finish next idEx target control m = .ok
      (if idEx.predictedNextPc != target then { control with flushIdEx := true } else control)
      { cpu := { m.cpu with pc := if idEx.predictedNextPc != target then target else m.cpu.pc }
        pipeline := { m.pipeline with nextExMem := next } } := by
  unfold stageEX.finish
  cases h : idEx.predictedNextPc != target <;> rfl

theorem stageEX_run (m : Machine) (control : StageControl) :
    stageEX control m = .ok
      (if redirects m.pipeline then { control with flushIdEx := true } else control)
      { cpu := cpuAfterEX m.cpu m.pipeline
        pipeline := { m.pipeline with nextExMem := nextExMem m.pipeline } } := by
  cases hv : m.pipeline.idEx.valid with
  | false =>
    have hr : redirects m.pipeline = false := by simp [redirects, hv]
    have hb : resolvesBranch m.pipeline = false := by simp [resolvesBranch, hv]
    simp only [stageEX, bind, EStateM.bind, get, getThe, MonadStateOf.get, get_run, hv,
      cpuAfterEX, nextExMem, hr, hb]
    rfl
  | true =>
    have hred : redirects m.pipeline =
        ((m.pipeline.idEx.control.branch || m.pipeline.idEx.control.jump) &&
          m.pipeline.idEx.predictedNextPc != exTarget m.pipeline.idEx (operandsOf m.pipeline)) := by
      rw [redirects, hv, Bool.true_and]
    have hres : resolvesBranch m.pipeline = m.pipeline.idEx.control.branch := by
      rw [resolvesBranch, hv, Bool.true_and]
    simp only [stageEX, bind, EStateM.bind, get, getThe, MonadStateOf.get, get_run, hv,
      cpuAfterEX, nextExMem, hred, hres]
    cases hb : m.pipeline.idEx.control.branch with
    | true =>
      have htgt : exTarget m.pipeline.idEx (operandsOf m.pipeline) =
          if branchTaken m.pipeline then m.pipeline.idEx.pc + m.pipeline.idEx.immediate
          else m.pipeline.idEx.pc + 4 := by
        simp only [exTarget, hb, if_true]
        rfl
      have htaken : evaluateBranch m.pipeline.idEx.control.branchCondition
          (resolveForwarding m.pipeline.idEx m.pipeline).rs1Value
          (resolveForwarding m.pipeline.idEx m.pipeline).rs2Value = branchTaken m.pipeline := rfl
      simp only [htaken, htgt]
      generalize (if branchTaken m.pipeline then m.pipeline.idEx.pc + m.pipeline.idEx.immediate
        else m.pipeline.idEx.pc + 4) = target
      by_cases hm : m.pipeline.idEx.predictedNextPc = target
      · rw [hm, bne_self_eq_false]
        simp only [ne_eq, not_true, if_false, if_true]
        refine (stageEX_finish_run _ _ _ _ _).trans ?_
        rw [hm, bne_self_eq_false]
        rfl
      · have hne := bne_iff_ne.mpr hm
        simp only [ne_eq, hm, not_false_iff, if_true]
        refine (stageEX_finish_run _ _ _ _ _).trans ?_
        rw [hne]
        rfl
    | false =>
      cases hj : m.pipeline.idEx.control.jump with
      | true =>
        have htgt : exTarget m.pipeline.idEx (operandsOf m.pipeline) =
            if m.pipeline.idEx.control.aluSrcPc then
              (nextExMemOf m.pipeline.idEx (operandsOf m.pipeline)).aluResult
            else (nextExMemOf m.pipeline.idEx (operandsOf m.pipeline)).aluResult &&& ~~~1#32 := by
          simp [exTarget, hb]
        rw [htgt]
        exact stageEX_finish_run m _ _ _ _
      | false => rfl

theorem stageID_run (m : Machine) (control : StageControl)
    (hf : control.flushIdEx = redirects m.pipeline)
    (hs : control.stallFetchDecode = stalls m.pipeline) :
    stageID control m = .ok
      (if (nextIdEx m.cpu m.pipeline).control.halt then { control with stopFetch := true }
        else control)
      { m with pipeline.nextIdEx := nextIdEx m.cpu m.pipeline } := by
  have hc : (control.flushIdEx || control.stallFetchDecode || !m.pipeline.ifId.valid ||
      !isValidInstruction (decodeInstruction m.pipeline.ifId.instruction)) =
      !(takes m.pipeline && isValidInstruction (decodeInstruction m.pipeline.ifId.instruction)) := by
    rw [hf, hs, takes]
    cases redirects m.pipeline <;> cases stalls m.pipeline <;> cases m.pipeline.ifId.valid <;> simp
  unfold stageID nextIdEx
  simp only [bind, EStateM.bind, get, getThe, MonadStateOf.get, get_run, hc]
  by_cases hv : (takes m.pipeline &&
      isValidInstruction (decodeInstruction m.pipeline.ifId.instruction)) = true
  · simp only [hv]
    rfl
  · rw [Bool.not_eq_true] at hv
    simp only [hv]
    rfl

theorem stageIF_run (m : Machine) :
    stageIF m = .ok ()
      { cpu := { m.cpu with
          pc := if m.cpu.CanFetch then (fetched m.cpu).predictedNextPc else m.cpu.pc }
        pipeline := { m.pipeline with
          nextIfId := if m.cpu.CanFetch then fetched m.cpu else {} } } := by
  unfold stageIF
  simp only [bind, EStateM.bind, get, getThe, MonadStateOf.get, get_run, modify, modifyGet,
    MonadStateOf.modifyGet, modifyGet_run]
  by_cases hc : m.cpu.CanFetch
  · have hread : m.cpu.readU32 m.cpu.pc = .ok (m.cpu.memory.word m.cpu.pc) := by
      rw [readU32_eq]
      exact if_pos hc
    have hle : ¬ m.cpu.pc.toNat + 4 > m.cpu.memorySize := not_lt.mpr hc
    simp only [hc, hle, if_true, if_false]
    simp only [EStateM.bind, get_run, modifyGet_run, hread, liftExcept_run]
    rfl
  · have hgt : m.cpu.pc.toNat + 4 > m.cpu.memorySize := not_le.mp hc
    simp only [hc, hgt, if_true, if_false]
    rfl

/-- The cycle from `stage_ID` on. -/
def fromID (control : StageControl) : Sim Unit := do
  let control ← stageID control
  if control.stopFetch || haltIsInFlight (← get).pipeline then
    modify fun m => { m with pipeline.nextIfId := {} }
  else if !control.stallFetchDecode then
    stageIF
  else
    modify fun m => { m with pipeline.nextIfId := m.pipeline.ifId }
  modify fun m => { m with pipeline := m.pipeline.commit }
  modify fun m => { m with cpu := m.cpu.tick }

theorem fromID_run (m : Machine) (control : StageControl)
    (hf : control.flushIdEx = redirects m.pipeline)
    (hs : control.stallFetchDecode = stalls m.pipeline) (hstop : control.stopFetch = false) :
    fromID control m = .ok ()
      { cpu := { m.cpu with
          pc := pcAfterIF m.cpu m.pipeline
          stats := { m.cpu.stats with clockCycles := m.cpu.stats.clockCycles + 1 } }
        pipeline := { m.pipeline with
          nextIdEx := nextIdEx m.cpu m.pipeline
          nextIfId := nextIfId m.cpu m.pipeline }.commit } := by
  obtain ⟨control', hc⟩ : ∃ c, c = if (nextIdEx m.cpu m.pipeline).control.halt then
      { control with stopFetch := true } else control := ⟨_, rfl⟩
  have hstop' : (control'.stopFetch ||
      haltIsInFlight { m.pipeline with nextIdEx := nextIdEx m.cpu m.pipeline }) =
        fetchStops m.cpu m.pipeline := by
    rw [hc, fetchStops]
    change (_ || haltIsInFlight m.pipeline) = _
    cases (nextIdEx m.cpu m.pipeline).control.halt <;> simp [hstop]
  have hstall' : control'.stallFetchDecode = stalls m.pipeline := by
    rw [hc]
    cases (nextIdEx m.cpu m.pipeline).control.halt <;> exact hs
  unfold fromID nextIfId pcAfterIF
  simp only [bind, EStateM.bind, get, getThe, MonadStateOf.get, get_run,
    stageID_run m control hf hs, ← hc, hstop', hstall']
  by_cases h1 : fetchStops m.cpu m.pipeline = true
  · simp only [h1]
    rfl
  · rw [Bool.not_eq_true] at h1
    by_cases h2 : stalls m.pipeline = true
    · simp only [h1, h2]
      rfl
    · rw [Bool.not_eq_true] at h2
      simp only [h1, h2, stageIF_run, Bool.false_eq_true, Bool.not_false, if_false, if_true,
        EStateM.bind]
      by_cases h3 : m.cpu.CanFetch
      · simp only [h3, decide_true]
        rfl
      · simp only [h3, decide_false]
        rfl

/-- **One cycle.** An access outside memory throws out of `stage_MEM`; otherwise
    the cycle goes on as `afterMEM`. -/
theorem runPipelineCycle_run (m : Machine) :
    runPipelineCycle m =
      match stageMEM { cpu := cpuAfterWB m.cpu m.pipeline.memWb, pipeline := m.pipeline.clearNext } with
      | .ok () m' => .ok () (afterMEM m')
      | .error e m' => .error e m' := by
  have hwb : stageWB { m with pipeline := m.pipeline.clearNext } = .ok ()
      { cpu := cpuAfterWB m.cpu m.pipeline.memWb, pipeline := m.pipeline.clearNext } :=
    stageWB_run _
  unfold runPipelineCycle
  simp only [bind, EStateM.bind, get, getThe, MonadStateOf.get, modify, modifyGet,
    MonadStateOf.modifyGet, modifyGet_run, hwb]
  cases hmem : stageMEM
      { cpu := cpuAfterWB m.cpu m.pipeline.memWb, pipeline := m.pipeline.clearNext } with
  | error e m' => rfl
  | ok a m' =>
    simp only [stageEX_run]
    obtain ⟨mx, hx⟩ : ∃ mx : Machine, mx = { cpu := cpuAfterEX m'.cpu m'.pipeline, pipeline :=
      { m'.pipeline with nextExMem := nextExMem m'.pipeline } } := ⟨_, rfl⟩
    cases hr : redirects m'.pipeline with
    | true =>
      have hs : stalls m'.pipeline = false := by rw [stalls, hr]; rfl
      have hrun := fromID_run mx { flushIdEx := true } (by rw [hx]; exact hr.symm)
        (by rw [hx]; exact hs.symm) rfl
      subst hx
      refine hrun.trans ?_
      simp only [afterMEM, hs]
      rfl
    | false =>
      -- the hazard unit looks at latches `stage_EX` has not changed
      change (ite ((detectRawHazard m'.pipeline).stall = true) _ _ : Sim Unit) _ = _
      have hz : (detectRawHazard m'.pipeline).stall = stalls m'.pipeline := by
        rw [stalls, hr]
        rfl
      by_cases hs : stalls m'.pipeline = true
      · have hrun := fromID_run
          { mx with cpu.stats.stallCycles := mx.cpu.stats.stallCycles + 1 }
          { stallFetchDecode := (detectRawHazard m'.pipeline).stall } (by rw [hx]; exact hr.symm)
          (by rw [hx]; exact hz) rfl
        subst hx
        rw [if_pos (hz.trans hs)]
        refine Eq.trans hrun ?_
        simp only [afterMEM, hs]
        rfl
      · have hrun := fromID_run mx { stallFetchDecode := (detectRawHazard m'.pipeline).stall }
          (by rw [hx]; exact hr.symm) (by rw [hx]; exact hz) rfl
        subst hx
        rw [if_neg (by rw [hz]; exact hs)]
        refine Eq.trans hrun ?_
        rw [Bool.not_eq_true] at hs
        simp only [afterMEM, hs]
        rfl

/-- **The cycle** of related machines has the same outcome, if what is related stays
    related where `MEM/WB` writes back and behind `stage_MEM`. -/
theorem SameAccess.lockstep_runPipelineCycle {R : Machine → Machine → Prop} (hR : SameAccess R)
    (hWB : ∀ {m m'}, R m m' → R ⟨cpuAfterWB m.cpu m.pipeline.memWb, m.pipeline.clearNext⟩
      ⟨cpuAfterWB m'.cpu m'.pipeline.memWb, m'.pipeline.clearNext⟩)
    (hEX : ∀ {m m'}, R m m' → R (afterMEM m) (afterMEM m')) :
    Lockstep R runPipelineCycle runPipelineCycle := by
  intro m m' h
  have hmem := hR.lockstep_stageMEM _ _ (hWB h)
  rw [runPipelineCycle_run, runPipelineCycle_run]
  revert hmem
  generalize stageMEM ⟨cpuAfterWB m.cpu m.pipeline.memWb, m.pipeline.clearNext⟩ = r
  generalize stageMEM ⟨cpuAfterWB m'.cpu m'.pipeline.memWb, m'.pipeline.clearNext⟩ = r'
  intro hmem
  cases hmem with
  | ok a h₁ => exact .ok a (hEX h₁)
  | error e h₁ => exact .error e h₁

/-! ## Counting -/

/-- The machine after a call, whether it throws or not. -/
def stateOf {α : Type} (r : EStateM.Result OutOfRange Machine α) : Machine :=
  match r with
  | .ok _ m => m
  | .error _ m => m

/-- `f` leaves the statistics alone, whether it throws or not. -/
def KeepsStats {α : Type} (f : Sim α) : Prop := ∀ m, (stateOf (f m)).cpu.stats = m.cpu.stats

theorem State.SameOutcome.stateOf {α : Type} {R : Machine → Machine → Prop}
    {r r' : EStateM.Result OutOfRange Machine α} (h : SameOutcome R r r') :
    R (RvPipeline.stateOf r) (RvPipeline.stateOf r') := by
  cases h with
  | ok a hs => exact hs
  | error e hs => exact hs

/-- A machine and itself, as long as the statistics are `stats`. -/
theorem sameAccess_stats (stats : ExecutionStats) :
    SameAccess fun m m' => m' = m ∧ m.cpu.stats = stats where
  memory h := by rw [h.1]
  exMem h := ⟨_, by rw [h.1], fun _ => rfl⟩
  store h _ _ := ⟨by rw [h.1], h.2⟩
  latch h _ := ⟨by rw [h.1], h.2⟩

theorem keepsStats_stageMEM : KeepsStats stageMEM := by
  intro m
  exact ((sameAccess_stats m.cpu.stats).lockstep_stageMEM m m ⟨rfl, rfl⟩).stateOf.2

theorem cpuAfterWB_valid {cpu : CPU} {memWb : MEMWBRegister} (hv : memWb.valid = true) :
    cpuAfterWB cpu memWb = { cpu with
      regs := if memWb.control.regWrite then
        (cpu.writeReg memWb.rd (selectWritebackValue memWb)).regs else cpu.regs
      halted := cpu.halted || memWb.control.halt
      stats.instructionCount := cpu.stats.instructionCount + 1 } := by
  unfold cpuAfterWB CPU.writeReg CPU.halt
  rw [if_pos hv]
  cases memWb.control.regWrite <;> cases memWb.control.halt <;>
    by_cases h0 : memWb.rd = 0#5 <;> simp [h0]

theorem cpuAfterWB_bubble {cpu : CPU} {memWb : MEMWBRegister} (hv : memWb.valid = false) :
    cpuAfterWB cpu memWb = cpu := by
  rw [cpuAfterWB, hv]
  rfl

/-- A cycle counts the instruction it finds in `MEM/WB`, whether it throws or not. -/
theorem instructionCount_cycle (m : Machine) :
    (stateOf (runPipelineCycle m)).cpu.stats.instructionCount =
      m.cpu.stats.instructionCount + m.pipeline.memWb.valid.toNat := by
  have hwb : (cpuAfterWB m.cpu m.pipeline.memWb).stats.instructionCount =
      m.cpu.stats.instructionCount + m.pipeline.memWb.valid.toNat := by
    cases hv : m.pipeline.memWb.valid with
    | false => rw [cpuAfterWB_bubble hv]; rfl
    | true => rw [cpuAfterWB_valid hv]; rfl
  have hmem := keepsStats_stageMEM ⟨cpuAfterWB m.cpu m.pipeline.memWb, m.pipeline.clearNext⟩
  rw [runPipelineCycle_run, ← hwb]
  cases hrun : stageMEM ⟨cpuAfterWB m.cpu m.pipeline.memWb, m.pipeline.clearNext⟩ with
  | ok a m' =>
    rw [hrun] at hmem
    have hcount := congrArg ExecutionStats.instructionCount hmem
    exact hcount
  | error e m' =>
    rw [hrun] at hmem
    have hcount := congrArg ExecutionStats.instructionCount hmem
    exact hcount

/-- A cycle that does not throw takes one clock cycle. -/
theorem clockCycles_cycle {m m' : Machine} (h : runPipelineCycle m = .ok () m') :
    m'.cpu.stats.clockCycles = m.cpu.stats.clockCycles + 1 := by
  have hwb : (cpuAfterWB m.cpu m.pipeline.memWb).stats.clockCycles = m.cpu.stats.clockCycles := by
    cases hv : m.pipeline.memWb.valid with
    | false => rw [cpuAfterWB_bubble hv]
    | true => rw [cpuAfterWB_valid hv]
  have hmem := keepsStats_stageMEM ⟨cpuAfterWB m.cpu m.pipeline.memWb, m.pipeline.clearNext⟩
  rw [runPipelineCycle_run] at h
  cases hrun : stageMEM ⟨cpuAfterWB m.cpu m.pipeline.memWb, m.pipeline.clearNext⟩ with
  | ok a m₁ =>
    rw [hrun] at h hmem
    cases h
    have hclock := congrArg (fun s : ExecutionStats => s.clockCycles + 1) hmem
    rw [← hwb]
    exact hclock
  | error e m₁ =>
    rw [hrun] at h
    cases h

end RvPipeline
