import RvPipeline.Pipeline.Invariant

/-!
# The operands of the execution stage

What `stage_EX` computes with, told from the machine alone: the calls of
`run_pipeline_cycle` go on after a halt and after an exception, and no
sequential machine is compared with.

* `Bypassed`: the invariant of the latches. The copies in `ID/EX` are those of the
  register file between two cycles, and no load in `EX/MEM` feeds `ID/EX`.
* `operands_delivered`: `resolve_forwarding` returns the registers as they are
  once `MEM/WB` and then `EX/MEM` have written back.
-/

namespace RvPipeline

open Isa

/-! ## Calling the cycle over and over -/

/-- Calling `run_pipeline_cycle` on `m₀` any number of times, whether a call throws
    or not, and whether the CPU has halted or not. -/
inductive Reachable (m₀ : Machine) : Machine → Prop
  | start : Reachable m₀ m₀
  | call {m : Machine} : Reachable m₀ m → Reachable m₀ (stateOf (runPipelineCycle m))

/-- `run_pipeline_cycle` up to `stage_EX`. -/
def beforeEX : Sim Unit := do
  modify fun m => { m with pipeline := m.pipeline.clearNext }
  stageWB
  stageMEM

theorem beforeEX_run (m : Machine) :
    beforeEX m = stageMEM ⟨cpuAfterWB m.cpu m.pipeline.memWb, m.pipeline.clearNext⟩ := by
  have hwb : stageWB { m with pipeline := m.pipeline.clearNext } = .ok ()
      { cpu := cpuAfterWB m.cpu m.pipeline.memWb, pipeline := m.pipeline.clearNext } :=
    stageWB_run _
  unfold beforeEX
  simp only [bind, EStateM.bind, modify, modifyGet, MonadStateOf.modifyGet, modifyGet_run, hwb]

theorem runPipelineCycle_beforeEX (m : Machine) : runPipelineCycle m =
    match beforeEX m with
    | .ok () m₁ => .ok () (afterMEM m₁)
    | .error e m₁ => .error e m₁ := by
  have h := runPipelineCycle_run m
  rw [← beforeEX_run] at h
  exact h

/-! ## The memory stage and exceptions -/

theorem readMemory_cases (cpu : CPU) (address : Word) (control : ControlSignals) :
    (∃ data, readMemory cpu address control = .ok data) ∨
      ∀ cpu' : CPU, cpu'.memory = cpu.memory →
        readMemory cpu' address control = .error ramBounds := by
  obtain ⟨width, load, hrun⟩ := readMemory_run address control
  by_cases hb : width = 0 ∨ cpu.InBounds address width
  · exact Or.inl ⟨_, by rw [hrun, if_pos hb]⟩
  · refine Or.inr fun cpu' h => ?_
    rw [hrun, if_neg]
    rw [CPU.inBounds_congr h]
    exact hb

theorem writeMemory_cases (cpu : CPU) (address value : Word) (control : ControlSignals) :
    (∃ memory log, writeMemory address value control cpu =
      .ok () { cpu with memory := memory, memoryWrites := log }) ∨
    ∀ cpu' : CPU, cpu'.memory = cpu.memory →
      writeMemory address value control cpu' = .error ramBounds cpu' := by
  obtain ⟨width, store, entries, hrun⟩ := writeMemory_run address value control
  by_cases hb : width = 0 ∨ cpu.InBounds address width
  · exact Or.inl ⟨_, _, by rw [hrun, if_pos hb]⟩
  · refine Or.inr fun cpu' h => ?_
    rw [hrun, if_neg]
    rw [CPU.inBounds_congr h]
    exact hb

/-- The latch `stage_MEM` makes of `EX/MEM` and the data it has read. -/
def memWbAfter (exMem : EXMEMRegister) (data : Word) : MEMWBRegister :=
  if exMem.valid then { nextMemWbOf exMem with memoryData := data } else {}

/-- `stage_MEM` changes memory, its log and the next latch, or throws whenever it
    finds this memory and this latch. -/
theorem stageMEM_cases {m : Machine}
    (h : m.pipeline.exMem.valid = true →
      m.pipeline.exMem.control.memRead = false ∨ m.pipeline.exMem.control.memWrite = false) :
    (∃ memory log data, stageMEM m = .ok ()
      ⟨{ m.cpu with memory := memory, memoryWrites := log },
        { m.pipeline with nextMemWb := memWbAfter m.pipeline.exMem data }⟩) ∨
    ∀ m' : Machine, m'.cpu.memory = m.cpu.memory → m'.pipeline.exMem = m.pipeline.exMem →
      stageMEM m' = .error ramBounds m' := by
  cases hv : m.pipeline.exMem.valid with
  | false =>
    refine Or.inl ⟨m.cpu.memory, m.cpu.memoryWrites, 0, ?_⟩
    rw [stageMEM_bubble hv, memWbAfter, hv]
    rfl
  | true =>
    have hnext : ∀ data, memWbAfter m.pipeline.exMem data =
        { nextMemWbOf m.pipeline.exMem with memoryData := data } := fun data => if_pos hv
    cases hr : m.pipeline.exMem.control.memRead with
    | true =>
      have hw : m.pipeline.exMem.control.memWrite = false := by
        rcases h hv with h | h
        · rw [hr] at h; cases h
        · exact h
      rcases readMemory_cases m.cpu m.pipeline.exMem.aluResult m.pipeline.exMem.control with
        ⟨data, hd⟩ | hd
      · refine Or.inl ⟨m.cpu.memory, m.cpu.memoryWrites, data, ?_⟩
        rw [stageMEM_run_read hv hr hw, hd, hnext]
      · refine Or.inr fun m' hm hp => ?_
        rw [stageMEM_run_read (by rw [hp, hv]) (by rw [hp, hr]) (by rw [hp, hw]), hp, hd _ hm]
    | false =>
      cases hw : m.pipeline.exMem.control.memWrite with
      | true =>
        rcases writeMemory_cases m.cpu m.pipeline.exMem.aluResult m.pipeline.exMem.storeValue
          m.pipeline.exMem.control with ⟨memory, log, hd⟩ | hd
        · refine Or.inl ⟨memory, log, 0, ?_⟩
          rw [stageMEM_run_write hv hr hw, hd, hnext]
          rfl
        · refine Or.inr fun m' hm hp => ?_
          rw [stageMEM_run_write (by rw [hp, hv]) (by rw [hp, hr]) (by rw [hp, hw]), hp, hd _ hm]
      | false =>
        refine Or.inl ⟨m.cpu.memory, m.cpu.memoryWrites, 0, ?_⟩
        rw [stageMEM_run_none hv hr hw, hnext]
        rfl

/-! ## Writing back -/

theorem readReg_cpuAfterWB (cpu : CPU) (memWb : MEMWBRegister) (r : Reg) :
    (cpuAfterWB cpu memWb).readReg r = memWbOperand memWb r (cpu.readReg r) := by
  unfold memWbOperand canForwardFromMemWb
  cases hv : memWb.valid with
  | false =>
    rw [cpuAfterWB_bubble hv]
    simp
  | true =>
    rw [cpuAfterWB_valid hv, CPU.readReg, CPU.readReg]
    by_cases h0 : r = 0#5
    · simp [h0]
    · cases hw : memWb.control.regWrite with
      | false => simp [h0]
      | true =>
        by_cases hd : memWb.rd = 0#5
        · have hne : r ≠ memWb.rd := by rw [hd]; exact h0
          simp [CPU.writeReg, h0, hd]
        · by_cases hr : r = memWb.rd
          · subst hr
            simp [CPU.writeReg, hd, memWbForwardValue_eq]
          · simp [CPU.writeReg, h0, hd, hr]

/-- What `EX/MEM` forwards is what its instruction writes back, if it is no load of
    the register. -/
theorem memWbOperand_memWbAfter {exMem : EXMEMRegister} {i : Instr} (data : Word) {r : Reg}
    (v : Word) (hc : exMem.valid = true → exMem.control = i.control)
    (hload : exMem.valid = true → i.isLoad = true → r ≠ 0#5 → r ≠ exMem.rd) :
    memWbOperand (memWbAfter exMem data) r v = exMemOperand exMem r v := by
  unfold memWbOperand exMemOperand canForwardFromMemWb canForwardFromExMem memWbAfter
  cases hv : exMem.valid with
  | false => simp
  | true =>
    have hctl := hc hv
    cases hl : i.isLoad with
    | true =>
      have hne := hload hv hl
      by_cases h0 : r = 0#5
      · simp [h0]
      · simp [nextMemWbOf, h0, hne h0]
    | false =>
      have hsrc : exMem.control.writebackSource ≠ .memory := by
        rw [hctl]
        cases i with
        | load => cases hl
        | _ => exact fun h => by cases h
      have hval := selectWritebackValue_nextMemWbOf exMem data hsrc
      rw [← memWbForwardValue_eq] at hval
      rw [if_pos rfl, hval]
      simp [nextMemWbOf, hctl, hl]

/-! ## The invariant -/

/-- What the latches hold between two cycles. -/
structure Bypassed (m : Machine) : Prop where
  idEx : m.pipeline.idEx.valid = true → ∃ i, instrOf m.pipeline.idEx.instruction = some i ∧
    IdExOf ⟨m.pipeline.idEx.pc, m.pipeline.idEx.instruction⟩ i m.pipeline.idEx
  copies : m.pipeline.idEx.valid = true →
    m.pipeline.idEx.rs1Value = m.cpu.readReg m.pipeline.idEx.rs1 ∧
      m.pipeline.idEx.rs2Value = m.cpu.readReg m.pipeline.idEx.rs2
  exMem : m.pipeline.exMem.valid = true → ∃ i, instrOf m.pipeline.exMem.instruction = some i ∧
    m.pipeline.exMem.rd = rdOf m.pipeline.exMem.instruction ∧
    m.pipeline.exMem.control = i.control
  spaced : m.pipeline.exMem.valid = true → m.pipeline.idEx.valid = true →
    ∀ i j, instrOf m.pipeline.exMem.instruction = some i →
      instrOf m.pipeline.idEx.instruction = some j → i.feeds j = false

theorem Bypassed.start {m : Machine} (h : m.pipeline = {}) : Bypassed m := by
  have hidEx : m.pipeline.idEx.valid = false := by rw [h]
  have hexMem : m.pipeline.exMem.valid = false := by rw [h]
  refine ⟨?_, ?_, ?_, ?_⟩
  · intro hv; rw [hidEx] at hv; cases hv
  · intro hv; rw [hidEx] at hv; cases hv
  · intro hv; rw [hexMem] at hv; cases hv
  · intro hv; rw [hexMem] at hv; cases hv

/-- Whenever `stage_ID` takes an instruction, the one in `ID/EX` does not feed it. -/
theorem not_feeds_of_takes {p : PipelineRegisters} {i j : Instr} (ht : takes p = true)
    (hi : instrOf p.idEx.instruction = some i)
    (hl : IdExOf ⟨p.idEx.pc, p.idEx.instruction⟩ i p.idEx)
    (hj : instrOf p.ifId.instruction = some j) : i.feeds j = false := by
  have ht' : (redirects p = false ∧ stalls p = false) ∧ p.ifId.valid = true := by
    simpa [takes] using ht
  have hstall := detectRawHazard_stall (x := ⟨p.idEx.pc, p.idEx.instruction⟩) ht'.2 hj hi hl
  rw [← hstall]
  simpa only [stalls, ht'.1.1, Bool.not_false, Bool.true_and] using ht'.1.2

/-- `stage_EX` hands the instruction on. -/
theorem nextExMem_fields (p : PipelineRegisters) : (nextExMem p).valid = p.idEx.valid ∧
    (p.idEx.valid = true → (nextExMem p).instruction = p.idEx.instruction ∧
      (nextExMem p).rd = p.idEx.rd ∧ (nextExMem p).control = p.idEx.control) := by
  unfold nextExMem
  cases hv : p.idEx.valid with
  | false => exact ⟨rfl, fun h => by cases h⟩
  | true =>
    cases p.idEx.control.branch <;> cases p.idEx.control.jump <;>
      exact ⟨rfl, fun _ => ⟨rfl, rfl, rfl⟩⟩

/-- **The stages behind `stage_MEM`** establish the invariant. -/
theorem Bypassed.afterMEM {m : Machine} (h : m.pipeline.idEx.valid = true →
    ∃ i, instrOf m.pipeline.idEx.instruction = some i ∧
      IdExOf ⟨m.pipeline.idEx.pc, m.pipeline.idEx.instruction⟩ i m.pipeline.idEx) :
    Bypassed (afterMEM m) := by
  obtain ⟨cpu, hcpu⟩ : ∃ cpu, cpu = cpuAfterEX m.cpu m.pipeline := ⟨_, rfl⟩
  have hregs : ∀ r, (RvPipeline.afterMEM m).cpu.readReg r = cpu.readReg r := by
    intro r
    rw [hcpu]
    rfl
  have hidEx : (RvPipeline.afterMEM m).pipeline.idEx = nextIdEx cpu m.pipeline := by
    rw [hcpu]
    rfl
  have hexMem : (RvPipeline.afterMEM m).pipeline.exMem = nextExMem m.pipeline := rfl
  obtain ⟨hvalid, hfields⟩ := nextExMem_fields m.pipeline
  refine ⟨?_, ?_, ?_, ?_⟩
  · intro hv
    rw [hidEx] at hv ⊢
    rcases nextIdEx_cases cpu m.pipeline with hn | ⟨-, ⟨j, hj⟩, hn⟩
    · rw [hn] at hv; cases hv
    · rw [hn]
      exact ⟨j, hj, idExOf_nextIdExOf cpu hj⟩
  · intro hv
    rw [hidEx] at hv ⊢
    rcases nextIdEx_cases cpu m.pipeline with hn | ⟨-, -, hn⟩
    · rw [hn] at hv; cases hv
    · rw [hn, hregs, hregs]
      exact ⟨rfl, rfl⟩
  · intro hv
    rw [hexMem, hvalid] at hv
    obtain ⟨i, hi, hl⟩ := h hv
    obtain ⟨hw, hrd, hc⟩ := hfields hv
    rw [hexMem, hw, hrd, hc]
    exact ⟨i, hi, hl.rd, hl.control⟩
  · intro hv hv' i j hi hj
    rw [hexMem, hvalid] at hv
    rw [hexMem, (hfields hv).1] at hi
    rw [hidEx] at hv' hj
    obtain ⟨i', hi', hl⟩ := h hv
    rw [hi] at hi'
    cases hi'
    rcases nextIdEx_cases cpu m.pipeline with hn | ⟨ht, -, hn⟩
    · rw [hn] at hv'; cases hv'
    · rw [hn] at hj
      exact not_feeds_of_takes ht hi hl hj

/-- `stage_MEM` throws whenever it finds the memory and the `EX/MEM` latch of `m`. -/
def Stuck (m : Machine) : Prop :=
  ∀ m' : Machine, m'.cpu.memory = m.cpu.memory → m'.pipeline.exMem = m.pipeline.exMem →
    stageMEM m' = .error ramBounds m'

theorem cpuAfterWB_memory (cpu : CPU) (memWb : MEMWBRegister) :
    (cpuAfterWB cpu memWb).memory = cpu.memory := by
  cases hv : memWb.valid with
  | false => rw [cpuAfterWB_bubble hv]
  | true => rw [cpuAfterWB_valid hv]

theorem Stuck.beforeEX {m : Machine} (h : Stuck m) : beforeEX m =
    .error ramBounds ⟨cpuAfterWB m.cpu m.pipeline.memWb, m.pipeline.clearNext⟩ := by
  rw [beforeEX_run]
  exact h _ (cpuAfterWB_memory _ _) rfl

theorem Bypassed.beforeEX {m : Machine} (h : Bypassed m) :
    (∃ memory log data, beforeEX m = .ok ()
      ⟨{ cpuAfterWB m.cpu m.pipeline.memWb with memory := memory, memoryWrites := log },
        { m.pipeline.clearNext with nextMemWb := memWbAfter m.pipeline.exMem data }⟩) ∨
    Stuck m := by
  rw [beforeEX_run]
  have hcases := stageMEM_cases
    (m := ⟨cpuAfterWB m.cpu m.pipeline.memWb, m.pipeline.clearNext⟩) fun hv => by
      obtain ⟨i, -, -, hc⟩ := h.exMem hv
      change m.pipeline.exMem.control.memRead = false ∨ m.pipeline.exMem.control.memWrite = false
      rw [hc, control_memRead, control_memWrite]
      cases i with
      | load => exact Or.inr rfl
      | _ => exact Or.inl rfl
  rcases hcases with hok | herr
  · exact Or.inl hok
  · exact Or.inr fun m' hm hp => herr m' (hm.trans (cpuAfterWB_memory _ _).symm) hp

/-- **The invariant** holds after any number of calls, until a call throws; then
    every further call throws before `stage_EX`. -/
theorem Reachable.bypassed {m₀ m : Machine} (h₀ : m₀.pipeline = {}) (h : Reachable m₀ m) :
    Bypassed m ∨ Stuck m := by
  induction h with
  | start => exact Or.inl (.start h₀)
  | @call m _ ih =>
    have hthrown : Stuck m → Stuck (stateOf (runPipelineCycle m)) := by
      intro hs
      rw [runPipelineCycle_beforeEX, hs.beforeEX]
      exact fun m' hm hp => hs m' (hm.trans (cpuAfterWB_memory _ _)) hp
    rcases ih with hb | hs
    · rcases hb.beforeEX with ⟨memory, log, data, hok⟩ | hs
      · rw [runPipelineCycle_beforeEX, hok]
        exact Or.inl (.afterMEM hb.idEx)
      · exact Or.inr (hthrown hs)
    · exact Or.inr (hthrown hs)

/-! ## What `stage_EX` finds -/

/-- Both operands as the instructions in front of it leave
    them, zero for `x0`, and no load in `EX/MEM` that has not delivered yet. `m` is the
    machine at the start of the cycle, `m₁` the one `stage_EX` runs on. -/
structure Delivered (m m₁ : Machine) : Prop where
  rs1 : ∀ i, instrOf m₁.pipeline.idEx.instruction = some i →
    i.reads m₁.pipeline.idEx.rs1 = true →
    (resolveForwarding m₁.pipeline.idEx m₁.pipeline).rs1Value =
      (cpuAfterWB (cpuAfterWB m.cpu m₁.pipeline.memWb) m₁.pipeline.nextMemWb).readReg
        m₁.pipeline.idEx.rs1
  rs2 : ∀ i, instrOf m₁.pipeline.idEx.instruction = some i →
    i.reads m₁.pipeline.idEx.rs2 = true →
    (resolveForwarding m₁.pipeline.idEx m₁.pipeline).rs2Value =
      (cpuAfterWB (cpuAfterWB m.cpu m₁.pipeline.memWb) m₁.pipeline.nextMemWb).readReg
        m₁.pipeline.idEx.rs2
  zero : (m₁.pipeline.idEx.rs1 = 0#5 →
      (resolveForwarding m₁.pipeline.idEx m₁.pipeline).rs1Value = 0#32) ∧
    (m₁.pipeline.idEx.rs2 = 0#5 →
      (resolveForwarding m₁.pipeline.idEx m₁.pipeline).rs2Value = 0#32)
  noLoad : m₁.pipeline.exMem.valid = true → m₁.pipeline.exMem.control.memRead = true →
    m₁.pipeline.exMem.rd ≠ 0#5 → ∀ i, instrOf m₁.pipeline.idEx.instruction = some i →
      i.reads m₁.pipeline.exMem.rd = false

/-- What `MEM/WB` and `EX/MEM` forward for `r` is what they write to it. -/
theorem forwarded_eq {m : Machine} (hb : Bypassed m) (data : Word) {r : Reg}
    (hload : m.pipeline.exMem.valid = true → m.pipeline.exMem.control.memRead = true →
      r ≠ 0#5 → r ≠ m.pipeline.exMem.rd) :
    exMemOperand m.pipeline.exMem r (memWbOperand m.pipeline.memWb r (m.cpu.readReg r)) =
      (cpuAfterWB (cpuAfterWB m.cpu m.pipeline.memWb) (memWbAfter m.pipeline.exMem data)).readReg
        r := by
  rw [readReg_cpuAfterWB, readReg_cpuAfterWB]
  cases hv : m.pipeline.exMem.valid with
  | false =>
    refine (memWbOperand_memWbAfter (i := .ecall) data _ ?_ ?_).symm
    · intro h; rw [hv] at h; cases h
    · intro h; rw [hv] at h; cases h
  | true =>
    obtain ⟨i, -, -, hc⟩ := hb.exMem hv
    refine (memWbOperand_memWbAfter data _ (fun _ => hc) fun _ hl => hload hv ?_).symm
    rw [hc, control_memRead, hl]

/-- **Bypass and stall deliver the operands in order.** -/
theorem operands_delivered {m₀ m m₁ : Machine} (h₀ : m₀.pipeline = {}) (h : Reachable m₀ m)
    (hex : beforeEX m = .ok () m₁) (hv : m₁.pipeline.idEx.valid = true) : Delivered m m₁ := by
  rcases h.bypassed h₀ with hb | hs
  swap
  · rw [hs.beforeEX] at hex
    cases hex
  rcases hb.beforeEX with ⟨memory, log, data, hok⟩ | hs
  swap
  · rw [hs.beforeEX] at hex
    cases hex
  rw [hok] at hex
  cases hex
  change m.pipeline.idEx.valid = true at hv
  obtain ⟨i, hi, hl⟩ := hb.idEx hv
  obtain ⟨hc1, hc2⟩ := hb.copies hv
  have hsame : ∀ nextMemWb, resolveForwarding m.pipeline.idEx
      { m.pipeline.clearNext with nextMemWb := nextMemWb } =
        resolveForwarding m.pipeline.idEx m.pipeline := fun _ => rfl
  obtain ⟨h1, h2⟩ := resolveForwarding_eq m.pipeline.idEx m.pipeline
  rw [hc1] at h1
  rw [hc2] at h2
  -- the load-use stall has kept readers of a load out of `ID/EX`
  have hload : m.pipeline.exMem.valid = true → m.pipeline.exMem.control.memRead = true →
      m.pipeline.exMem.rd ≠ 0#5 → i.reads m.pipeline.exMem.rd = false := by
    intro hx hm h0
    obtain ⟨k, hk, hrd, hc⟩ := hb.exMem hx
    have hf := hb.spaced hx hv k i hk hi
    rw [hc, control_memRead] at hm
    have hd : k.dest = some m.pipeline.exMem.rd := by
      rw [hrd, dest_eq_iff hk]
      cases k with
      | load => exact ⟨rfl, rfl⟩
      | _ => cases hm
    simpa [Instr.feeds, hm, hd, h0] using hf
  have hread : ∀ r, i.reads r = true → m.pipeline.exMem.valid = true →
      m.pipeline.exMem.control.memRead = true → r ≠ 0#5 → r ≠ m.pipeline.exMem.rd := by
    rintro r hr hx hm h0 rfl
    rw [hload hx hm h0] at hr
    cases hr
  refine ⟨fun i' hi' hr => ?_, fun i' hi' hr => ?_, ⟨fun h0 => ?_, fun h0 => ?_⟩, ?_⟩
  · cases (hi.symm.trans hi' : some i = some i')
    exact (congrArg ForwardedOperands.rs1Value (hsame _)).trans
      (h1.trans (forwarded_eq hb data (hread _ hr)))
  · cases (hi.symm.trans hi' : some i = some i')
    exact (congrArg ForwardedOperands.rs2Value (hsame _)).trans
      (h2.trans (forwarded_eq hb data (hread _ hr)))
  · change m.pipeline.idEx.rs1 = 0#5 at h0
    refine (congrArg ForwardedOperands.rs1Value (hsame _)).trans (h1.trans ?_)
    simp [exMemOperand, memWbOperand, CPU.readReg, h0]
  · change m.pipeline.idEx.rs2 = 0#5 at h0
    refine (congrArg ForwardedOperands.rs2Value (hsame _)).trans (h2.trans ?_)
    simp [exMemOperand, memWbOperand, CPU.readReg, h0]
  · intro hx hm h0 i' hi'
    cases (hi.symm.trans hi' : some i = some i')
    exact hload hx hm h0

/-- `k` calls. -/
def calls (k : ℕ) (m : Machine) : Machine := (fun m => stateOf (runPipelineCycle m))^[k] m

theorem reachable_calls (m₀ : Machine) (k : ℕ) : Reachable m₀ (calls k m₀) := by
  induction k with
  | zero => exact .start
  | succ k ih =>
    rw [calls, Function.iterate_succ_apply']
    exact ih.call

/-- `addi x1, x0, 42; add x2, x1, x1`, the pair of `asmFiles/forwarding_demo.s`, and
    `ecall`. -/
def forwardingDemo : Machine := .ofProgram [0x02A00093, 0x00108133, 0x00000073]

theorem forwardingDemo_delivered : ∃ m₁, beforeEX (calls 3 forwardingDemo) = .ok () m₁ ∧
    m₁.pipeline.idEx.instruction = 0x00108133 ∧ Delivered (calls 3 forwardingDemo) m₁ := by
  have hrun : ((stateOf (beforeEX (calls 3 forwardingDemo))).pipeline.nextMemWb.valid &&
      (stateOf (beforeEX (calls 3 forwardingDemo))).pipeline.idEx.valid &&
      (stateOf (beforeEX (calls 3 forwardingDemo))).pipeline.idEx.instruction == 0x00108133) =
        true := by
    decide +kernel
  have hnot : ¬ Stuck (calls 3 forwardingDemo) := by
    intro hs
    rw [hs.beforeEX] at hrun
    cases hrun
  have hb := ((reachable_calls forwardingDemo 3).bypassed rfl).resolve_right hnot
  obtain ⟨memory, log, data, hex⟩ := hb.beforeEX.resolve_right hnot
  rw [hex, Bool.and_eq_true, Bool.and_eq_true, beq_iff_eq] at hrun
  exact ⟨_, hex, hrun.2, operands_delivered rfl (reachable_calls _ _) hex hrun.1.2⟩

end RvPipeline
