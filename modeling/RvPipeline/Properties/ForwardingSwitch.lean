import RvPipeline.Properties.Bypass

/-!
# The forwarding switch

`Config::enable_forwarding` stands for the bypass paths (`include/config.hpp`,
lines 11–14), but no function of the simulator reads it: with the switch off the
same values are forwarded, and `detect_raw_hazard` holds nobody but the readers of a
load.

* `Unswitched`: a computation that does the same in both positions of the switch;
  `run_pipeline_cycle` is one, so both runs are the same.
* `switchHonoured_iff`: with the switch off, a run takes its operands from the
  register file, and holds whoever has to wait, exactly if nothing it sends to
  `ID/EX` names a register that is about to be forwarded.
-/

namespace RvPipeline

open Isa State

/-! ## Nothing reads the switch -/

/-- The same machine with the switch on or off. -/
def Machine.setForwarding (on : Bool) (m : Machine) : Machine :=
  { m with cpu.config.enableForwarding := on }

theorem Machine.setForwarding_self {on : Bool} {m : Machine}
    (h : m.cpu.config.enableForwarding = on) : m.setForwarding on = m := by
  subst h
  rfl

/-- Change the machine that a computation leaves. -/
def mapMachine {α : Type} (f : Machine → Machine) :
    EStateM.Result OutOfRange Machine α → EStateM.Result OutOfRange Machine α
  | .ok a m => .ok a (f m)
  | .error e m => .error e (f m)

/-- The computation does the same with the switch on and off. -/
def Unswitched {α : Type} (f : Sim α) : Prop :=
  ∀ on m, f (m.setForwarding on) = mapMachine (.setForwarding on) (f m)

theorem unswitched_of_lockstep {α : Type} {f : Sim α}
    (h : ∀ on, Lockstep (fun m m' => m' = m.setForwarding on) f f) : Unswitched f := by
  intro on m
  have hrun := h on m (m.setForwarding on) rfl
  revert hrun
  generalize f m = r
  generalize f (m.setForwarding on) = r'
  intro hrun
  cases hrun with
  | ok a hs => rw [hs]; rfl
  | error e hs => rw [hs]; rfl

theorem sameAccess_setForwarding (on : Bool) :
    SameAccess fun m m' => m' = m.setForwarding on where
  memory h := by rw [h]; rfl
  exMem h := ⟨_, by rw [h]; rfl, fun _ => rfl⟩
  store h _ _ := by rw [h]; rfl
  latch h _ := by rw [h]; rfl

theorem cpuAfterWB_setForwarding (on : Bool) (m : Machine) (memWb : MEMWBRegister) :
    (⟨cpuAfterWB (m.setForwarding on).cpu memWb, m.pipeline⟩ : Machine) =
      Machine.setForwarding on ⟨cpuAfterWB m.cpu memWb, m.pipeline⟩ := by
  cases hv : memWb.valid with
  | false =>
    rw [cpuAfterWB_bubble hv, cpuAfterWB_bubble hv]
    rfl
  | true =>
    rw [cpuAfterWB_valid hv, cpuAfterWB_valid hv]
    unfold CPU.writeReg
    by_cases h0 : memWb.rd = 0#5 <;> simp only [h0, if_true, if_false] <;> rfl

/-- **The cycle** does the same with the switch on and off. -/
theorem unswitched_runPipelineCycle : Unswitched runPipelineCycle := by
  refine unswitched_of_lockstep fun on =>
    (sameAccess_setForwarding on).lockstep_runPipelineCycle ?_ ?_
  · rintro m m' rfl
    exact cpuAfterWB_setForwarding on ⟨m.cpu, m.pipeline.clearNext⟩ m.pipeline.memWb
  · rintro m m' rfl
    rfl

/-- **The runs** are the same with the switch on and off. -/
theorem Runs.setForwarding {m₀ m : Machine} {t : Trace} (on : Bool) (h : Runs m₀ t m) :
    Runs (m₀.setForwarding on) t (m.setForwarding on) := by
  induction h with
  | start => exact .start
  | @cycle t m m' _ hrun hcycle ih =>
    refine ih.cycle hrun ?_
    rw [unswitched_runPipelineCycle, hcycle]
    rfl

theorem HaltsIn.setForwarding {m₀ m : Machine} {t : Trace} (on : Bool) (h : HaltsIn m₀ t m) :
    HaltsIn (m₀.setForwarding on) t (m.setForwarding on) := ⟨h.1.setForwarding on, h.2⟩

/-! ## What the switch is for -/

/-- An older instruction that has not written back when `stage_ID` runs writes a
    source of the instruction in `IF/ID`. The one in `MEM/WB` has written back. -/
def awaitsWrite (p : PipelineRegisters) : Bool :=
  let decoded := decodeInstruction p.ifId.instruction
  let sources := getSourceRegisters decoded
  p.ifId.valid && isValidInstruction decoded &&
    ((writesRegister p.idEx.valid p.idEx.control p.idEx.rd && dependsOn sources p.idEx.rd) ||
      (writesRegister p.exMem.valid p.exMem.control p.exMem.rd && dependsOn sources p.exMem.rd))

/-- The operands as `stage_ID` has read them, with nothing forwarded. -/
def copiesOf (idEx : IDEXRegister) : ForwardedOperands :=
  { rs1Value := idEx.rs1Value, rs2Value := idEx.rs2Value }

/-- What the switch promises of a machine that starts with the switch off. -/
structure SwitchHonoured (m₀ : Machine) : Prop where
  /-- `stage_EX` works with what `stage_ID` has read from the register file. -/
  operands : ∀ t m, Runs m₀ t m → m.pipeline.idEx.valid = true →
    operandsOf m.pipeline = copiesOf m.pipeline.idEx ∧
      m.pipeline.idEx.rs1Value = m.cpu.readReg m.pipeline.idEx.rs1 ∧
      m.pipeline.idEx.rs2Value = m.cpu.readReg m.pipeline.idEx.rs2
  /-- Whenever `detect_raw_hazard` is asked, it holds an instruction that waits for a
      register. -/
  holds : ∀ t m m', Runs m₀ t m → m.cpu.halted = false → runPipelineCycle m = .ok () m' →
    redirects m.pipeline = false → awaitsWrite m.pipeline = true →
    (detectRawHazard m.pipeline).stall = true
  /-- The run halts if the one with the switch on does. -/
  halts : (∃ t m, HaltsIn m₀ t m) ↔ ∃ t m, HaltsIn (m₀.setForwarding true) t m
  /-- Both end in the same state, and the one with the switch off has not stalled less. -/
  result : ∀ t m t' m', HaltsIn m₀ t m → HaltsIn (m₀.setForwarding true) t' m' →
    archOf m.cpu = archOf m'.cpu ∧ m'.cpu.stats.stallCycles ≤ m.cpu.stats.stallCycles

/-- The branch or jump in `ID/EX` leads elsewhere than predicted, going by its copies. -/
def mispredicts (idEx : IDEXRegister) : Bool :=
  idEx.valid && (idEx.control.branch || idEx.control.jump) &&
    idEx.predictedNextPc != exTarget idEx (copiesOf idEx)

/-- `ID/EX` holds a load of a source of the instruction in `IF/ID`. -/
def loadUse (p : PipelineRegisters) : Bool :=
  writesRegister p.idEx.valid p.idEx.control p.idEx.rd && p.idEx.control.memRead &&
    dependsOn (getSourceRegisters (decodeInstruction p.ifId.instruction)) p.idEx.rd

/-- The instruction in `IF/ID` moves on to `ID/EX`. -/
def movesOn (p : PipelineRegisters) : Bool :=
  p.ifId.valid && isValidInstruction (decodeInstruction p.ifId.instruction) &&
    !mispredicts p.idEx && !loadUse p

/-- In the next cycle, `r` can be forwarded: it is written by the instruction in
    `EX/MEM`, or by one in `ID/EX` that is no load. -/
def onItsWay (p : PipelineRegisters) (r : Reg) : Bool :=
  (writesRegister p.idEx.valid p.idEx.control p.idEx.rd && !p.idEx.control.memRead &&
      r == p.idEx.rd) ||
    (writesRegister p.exMem.valid p.exMem.control p.exMem.rd && r == p.exMem.rd)

/-- No instruction moves on to `ID/EX` whose `rs1` or `rs2` is on its way. -/
def Unrelated (p : PipelineRegisters) : Prop :=
  movesOn p = true →
    onItsWay p (decodeInstruction p.ifId.instruction).rs1 = false ∧
      onItsWay p (decodeInstruction p.ifId.instruction).rs2 = false

instance (p : PipelineRegisters) : Decidable (Unrelated p) :=
  inferInstanceAs (Decidable (_ → _))

/-! ## What is forwarded -/

/-- `resolve_forwarding` finds a value for `r` in `EX/MEM` or `MEM/WB`. -/
def forwards (p : PipelineRegisters) (r : Reg) : Bool :=
  decide (canForwardFromExMem p.exMem = true ∧ r ≠ 0#5 ∧ r = p.exMem.rd) ||
    decide (canForwardFromMemWb p.memWb = true ∧ r ≠ 0#5 ∧ r = p.memWb.rd)

theorem forwardFromExMem_flags (idEx : IDEXRegister) (exMem : EXMEMRegister)
    (operands : ForwardedOperands) :
    (forwardFromExMem idEx exMem operands).forwardedRs1 = (operands.forwardedRs1 ||
        decide (canForwardFromExMem exMem = true ∧ idEx.rs1 ≠ 0#5 ∧ idEx.rs1 = exMem.rd)) ∧
      (forwardFromExMem idEx exMem operands).forwardedRs2 = (operands.forwardedRs2 ||
        decide (canForwardFromExMem exMem = true ∧ idEx.rs2 ≠ 0#5 ∧ idEx.rs2 = exMem.rd)) := by
  unfold forwardFromExMem
  rcases Classical.propComplete (idEx.rs1 ≠ 0#5 ∧ idEx.rs1 = exMem.rd) with h1 | h1 <;>
    rcases Classical.propComplete (idEx.rs2 ≠ 0#5 ∧ idEx.rs2 = exMem.rd) with h2 | h2 <;>
    simp only [h1, h2] <;> cases canForwardFromExMem exMem <;> simp

theorem forwardFromMemWb_flags (idEx : IDEXRegister) (memWb : MEMWBRegister)
    (operands : ForwardedOperands) :
    (forwardFromMemWb idEx memWb operands).forwardedRs1 = (operands.forwardedRs1 ||
        decide (canForwardFromMemWb memWb = true ∧ idEx.rs1 ≠ 0#5 ∧ idEx.rs1 = memWb.rd)) ∧
      (forwardFromMemWb idEx memWb operands).forwardedRs2 = (operands.forwardedRs2 ||
        decide (canForwardFromMemWb memWb = true ∧ idEx.rs2 ≠ 0#5 ∧ idEx.rs2 = memWb.rd)) := by
  unfold forwardFromMemWb
  rcases Classical.propComplete (idEx.rs1 ≠ 0#5 ∧ idEx.rs1 = memWb.rd) with h1 | h1 <;>
    rcases Classical.propComplete (idEx.rs2 ≠ 0#5 ∧ idEx.rs2 = memWb.rd) with h2 | h2 <;>
    simp only [h1, h2] <;> cases canForwardFromMemWb memWb <;>
    cases hf1 : operands.forwardedRs1 <;> cases hf2 : operands.forwardedRs2 <;> simp [hf1, hf2]

/-- `stage_EX` works with the copies exactly if there is nothing to forward. -/
theorem operandsOf_eq_copies (p : PipelineRegisters) : operandsOf p = copiesOf p.idEx ↔
    forwards p p.idEx.rs1 = false ∧ forwards p p.idEx.rs2 = false := by
  have hx := forwardFromExMem_flags p.idEx p.exMem (copiesOf p.idEx)
  have hw := forwardFromMemWb_flags p.idEx p.memWb
    (forwardFromExMem p.idEx p.exMem (copiesOf p.idEx))
  have h1 : (operandsOf p).forwardedRs1 = forwards p p.idEx.rs1 := by
    refine hw.1.trans ?_
    rw [hx.1]
    rfl
  have h2 : (operandsOf p).forwardedRs2 = forwards p p.idEx.rs2 := by
    refine hw.2.trans ?_
    rw [hx.2]
    rfl
  constructor
  · intro h
    rw [← h1, ← h2, h]
    exact ⟨rfl, rfl⟩
  · rintro ⟨hf1, hf2⟩
    have hvalues := resolveForwarding_eq p.idEx p
    have keep : ∀ r v, forwards p r = false →
        exMemOperand p.exMem r (memWbOperand p.memWb r v) = v := by
      intro r v hf
      rw [forwards, Bool.or_eq_false_iff, decide_eq_false_iff_not, decide_eq_false_iff_not] at hf
      rw [exMemOperand, if_neg hf.1, memWbOperand, if_neg hf.2]
    rw [keep _ _ hf1, keep _ _ hf2] at hvalues
    rw [hf1] at h1
    rw [hf2] at h2
    change (operandsOf p).rs1Value = _ ∧ (operandsOf p).rs2Value = _ at hvalues
    generalize operandsOf p = operands at h1 h2 hvalues
    cases operands
    cases h1
    cases h2
    cases hvalues.1
    cases hvalues.2
    rfl

/-! ## One cycle -/

/-- What a cycle puts into the latches behind `stage_ID`. -/
theorem Bypassed.next {m m' : Machine} (h : Bypassed m) (hcycle : runPipelineCycle m = .ok () m') :
    Bypassed m' ∧ ∃ cpu data, m'.pipeline.idEx = nextIdEx cpu m.pipeline ∧
      m'.pipeline.exMem = nextExMem m.pipeline ∧
      m'.pipeline.memWb = memWbAfter m.pipeline.exMem data := by
  rcases h.beforeEX with ⟨memory, log, data, hok⟩ | hs
  · rw [runPipelineCycle_beforeEX, hok] at hcycle
    cases hcycle
    exact ⟨.afterMEM h.idEx, _, data, rfl, rfl, rfl⟩
  · rw [runPipelineCycle_beforeEX, hs.beforeEX] at hcycle
    cases hcycle

theorem Runs.bypassed {m₀ m : Machine} {t : Trace} (h₀ : m₀.pipeline = {}) (h : Runs m₀ t m) :
    Bypassed m := by
  induction h with
  | start => exact .start h₀
  | cycle _ _ hcycle ih => exact (ih.next hcycle).1

/-- What is on its way is forwarded in the next cycle. -/
theorem forwards_next {p p' : PipelineRegisters} {data : Word} (r : Reg)
    (hexMem : p'.exMem = nextExMem p) (hmemWb : p'.memWb = memWbAfter p.exMem data) :
    forwards p' r = onItsWay p r := by
  have hx : decide (canForwardFromExMem p'.exMem = true ∧ r ≠ 0#5 ∧ r = p'.exMem.rd) =
      (writesRegister p.idEx.valid p.idEx.control p.idEx.rd && !p.idEx.control.memRead &&
        r == p.idEx.rd) := by
    obtain ⟨hv, hf⟩ := nextExMem_fields p
    rw [hexMem, canForwardFromExMem, writesRegister, hv]
    cases hval : p.idEx.valid with
    | false => simp
    | true =>
      obtain ⟨-, hrd, hc⟩ := hf hval
      rw [hrd, hc]
      rw [Bool.eq_iff_iff]
      simp only [Bool.and_eq_true, decide_eq_true_eq, beq_iff_eq, bne_iff_ne, ne_eq, true_and,
        Bool.not_eq_true']
      constructor
      · rintro ⟨⟨⟨hw, h0⟩, hl⟩, -, hr⟩
        exact ⟨⟨⟨hw, h0⟩, hl⟩, hr⟩
      · rintro ⟨⟨⟨hw, h0⟩, hl⟩, rfl⟩
        exact ⟨⟨⟨hw, h0⟩, hl⟩, h0, rfl⟩
  have hw : decide (canForwardFromMemWb p'.memWb = true ∧ r ≠ 0#5 ∧ r = p'.memWb.rd) =
      (writesRegister p.exMem.valid p.exMem.control p.exMem.rd && r == p.exMem.rd) := by
    rw [hmemWb, canForwardFromMemWb, writesRegister, memWbAfter]
    cases hval : p.exMem.valid with
    | false => simp
    | true =>
      rw [if_pos rfl]
      rw [Bool.eq_iff_iff]
      simp only [Bool.and_eq_true, decide_eq_true_eq, beq_iff_eq, bne_iff_ne, ne_eq, true_and,
        nextMemWbOf]
      constructor
      · rintro ⟨⟨hw, h0⟩, -, hr⟩
        exact ⟨⟨hw, h0⟩, hr⟩
      · rintro ⟨⟨hw, h0⟩, rfl⟩
        exact ⟨⟨hw, h0⟩, h0, rfl⟩
  rw [forwards, hx, hw]
  rfl

/-! ## Who moves on -/

theorem getSourceRegisters_fields (decoded : DecodedInstruction) :
    (getSourceRegisters decoded).rs1 = decoded.rs1 ∧
      (getSourceRegisters decoded).rs2 = decoded.rs2 := by
  unfold getSourceRegisters
  cases decoded.kind <;> dsimp only <;> split <;> split <;> exact ⟨rfl, rfl⟩

/-- A source is one of the two register fields. -/
theorem field_of_dependsOn {decoded : DecodedInstruction} {r : Reg}
    (h : dependsOn (getSourceRegisters decoded) r = true) : decoded.rs1 = r ∨ decoded.rs2 = r := by
  obtain ⟨h1, h2⟩ := getSourceRegisters_fields decoded
  rw [dependsOn, h1, h2, Bool.or_eq_true, Bool.and_eq_true, Bool.and_eq_true, beq_iff_eq,
    beq_iff_eq] at h
  exact h.imp And.right And.right

section

variable {p : PipelineRegisters}

theorem detectRawHazard_eq_loadUse (hv : p.ifId.valid = true)
    (hd : isValidInstruction (decodeInstruction p.ifId.instruction) = true) :
    (detectRawHazard p).stall = loadUse p := by
  unfold detectRawHazard loadUse
  simp only [hv, hd, Bool.not_true, Bool.false_eq_true, if_false]
  cases writesRegister p.idEx.valid p.idEx.control p.idEx.rd <;>
    cases dependsOn (getSourceRegisters (decodeInstruction p.ifId.instruction)) p.idEx.rd <;>
    simp

variable (h : p.idEx.valid = true → operandsOf p = copiesOf p.idEx)

include h

theorem redirects_eq_mispredicts : redirects p = mispredicts p.idEx := by
  unfold redirects mispredicts
  cases hv : p.idEx.valid with
  | false => rfl
  | true => rw [h hv]

/-- `stage_ID` takes whatever moves on. -/
theorem movesOn_eq_takes :
    movesOn p = (takes p && isValidInstruction (decodeInstruction p.ifId.instruction)) := by
  unfold movesOn takes stalls
  rw [redirects_eq_mispredicts h]
  cases hv : p.ifId.valid with
  | false => simp
  | true =>
    cases hd : isValidInstruction (decodeInstruction p.ifId.instruction) with
    | false => simp
    | true =>
      rw [detectRawHazard_eq_loadUse hv hd]
      cases mispredicts p.idEx <;> cases loadUse p <;> rfl

/-- If no related instruction moves on, whoever waits for a register waits for a load
    in `ID/EX`. -/
theorem Unrelated.stall (hu : Unrelated p) (hr : redirects p = false)
    (hw : awaitsWrite p = true) : (detectRawHazard p).stall = true := by
  rw [awaitsWrite, Bool.and_eq_true, Bool.and_eq_true] at hw
  obtain ⟨⟨hv, hd⟩, hw⟩ := hw
  rw [detectRawHazard_eq_loadUse hv hd]
  by_contra hl
  rw [Bool.not_eq_true] at hl
  have hmoves : movesOn p = true := by
    rw [movesOn, hv, hd, ← redirects_eq_mispredicts h, hr, hl]
    rfl
  obtain ⟨h1, h2⟩ := hu hmoves
  have hfields : ∀ r, dependsOn (getSourceRegisters (decodeInstruction p.ifId.instruction)) r = true →
      onItsWay p r = false := by
    intro r hdep
    rcases field_of_dependsOn hdep with rfl | rfl
    · exact h1
    · exact h2
  rw [Bool.or_eq_true, Bool.and_eq_true, Bool.and_eq_true] at hw
  rcases hw with ⟨hwrites, hdep⟩ | ⟨hwrites, hdep⟩
  · have hnone := hfields _ hdep
    rw [loadUse, hwrites, hdep, Bool.true_and, Bool.and_true] at hl
    rw [onItsWay, hwrites, hl, beq_self_eq_true] at hnone
    cases hnone
  · have hnone := hfields _ hdep
    rw [onItsWay, hwrites, beq_self_eq_true, Bool.and_self, Bool.or_true] at hnone
    cases hnone

end

/-! ## Runs with the switch off -/

section

variable {m₀ m m' : Machine} {t : Trace}

/-- `stage_EX` works with copies after a cycle exactly if the cycle sends nothing to
    `ID/EX` that is related. -/
theorem copies_next_iff (hb : Bypassed m)
    (h : m.pipeline.idEx.valid = true → operandsOf m.pipeline = copiesOf m.pipeline.idEx)
    (hcycle : runPipelineCycle m = .ok () m') : Unrelated m.pipeline ↔
      (m'.pipeline.idEx.valid = true → operandsOf m'.pipeline = copiesOf m'.pipeline.idEx) := by
  obtain ⟨-, cpu, data, hidEx, hexMem, hmemWb⟩ := hb.next hcycle
  rw [operandsOf_eq_copies, forwards_next _ hexMem hmemWb, forwards_next _ hexMem hmemWb, hidEx,
    Unrelated, movesOn_eq_takes h, nextIdEx]
  cases hmoves : takes m.pipeline &&
      isValidInstruction (decodeInstruction m.pipeline.ifId.instruction) with
  | false =>
    rw [if_neg Bool.false_ne_true]
    exact ⟨fun _ hv => (by cases hv), fun _ hv => (by cases hv)⟩
  | true =>
    rw [if_pos rfl]
    exact ⟨fun hu _ => hu rfl, fun hu _ => hu rfl⟩

/-- **The runs of which every cycle sends unrelated instructions** forward nothing. -/
theorem Runs.copies (h₀ : m₀.pipeline = {})
    (hu : ∀ t m m', Runs m₀ t m → m.cpu.halted = false → runPipelineCycle m = .ok () m' →
      Unrelated m.pipeline) (h : Runs m₀ t m) (hv : m.pipeline.idEx.valid = true) :
    operandsOf m.pipeline = copiesOf m.pipeline.idEx := by
  induction h with
  | start =>
    rw [h₀] at hv
    cases hv
  | cycle hm hrun hcycle ih =>
    exact (copies_next_iff (hm.bypassed h₀) ih hcycle).mp (hu _ _ _ hm hrun hcycle) hv

/-- **The forwarding switch** is honoured exactly by the runs that have nothing to
    forward: those in which no instruction moves on to `ID/EX` whose `rs1` or `rs2` is on
    its way. -/
theorem switchHonoured_iff (h₀ : m₀.pipeline = {})
    (hoff : m₀.cpu.config.enableForwarding = false) : SwitchHonoured m₀ ↔
      ∀ t m m', Runs m₀ t m → m.cpu.halted = false → runPipelineCycle m = .ok () m' →
        Unrelated m.pipeline := by
  constructor
  · intro hs t m m' hm hrun hcycle
    refine (copies_next_iff (hm.bypassed h₀) (fun hv => (hs.operands t m hm hv).1) hcycle).mpr ?_
    exact fun hv => (hs.operands _ m' (hm.cycle hrun hcycle) hv).1
  · intro hu
    have hback : (m₀.setForwarding true).setForwarding false = m₀ :=
      Machine.setForwarding_self (m := m₀) hoff
    refine ⟨?_, ?_, ?_, ?_⟩
    · intro t m hm hv
      exact ⟨hm.copies h₀ hu hv, (hm.bypassed h₀).copies hv⟩
    · intro t m m' hm hrun hcycle hr hw
      exact (hu t m m' hm hrun hcycle).stall (hm.copies h₀ hu) hr hw
    · constructor
      · rintro ⟨t, m, hm⟩
        exact ⟨t, _, hm.setForwarding true⟩
      · rintro ⟨t, m, hm⟩
        have hm' := hm.setForwarding false
        rw [hback] at hm'
        exact ⟨t, _, hm'⟩
    · intro t m t' m' hm hm'
      obtain ⟨-, rfl⟩ := (hm.setForwarding true).unique hm'
      exact ⟨rfl, le_refl _⟩

end

/-! ## Two programs -/

/-- `addi x1, x0, 32; addi x2, x0, 64; addi x3, x0, 96; add x4, x1, x1; ecall`. -/
def spacedDemo : Machine := .ofProgram
  [0x02000093, 0x04000113, 0x06000193, 0x00108233, 0x00000073] { enableForwarding := false }

/-- When `add` reads `x1`, it has been written back. -/
theorem spacedDemo_switchHonoured : SwitchHonoured spacedDemo := by
  refine (switchHonoured_iff rfl rfl).mpr fun t m _ hm _ _ => ?_
  have hall := hm.all_of_drive 9 (fun m => decide (Unrelated m.pipeline)) (by decide +kernel)
    (by decide +kernel)
  exact of_decide_eq_true hall

/-- In `forwarding_demo` the `add` gets `x1` from `EX/MEM` with the switch off, too. -/
theorem not_switchHonoured_forwardingDemo :
    ¬ SwitchHonoured (forwardingDemo.setForwarding false) := by
  intro h
  obtain ⟨⟨t, m⟩, hm, hx⟩ := (Option.any_eq_true _ _).mp (by decide +kernel :
    (drive 3 ({}, forwardingDemo.setForwarding false)).any (fun x =>
      x.2.pipeline.idEx.valid &&
        decide (operandsOf x.2.pipeline ≠ copiesOf x.2.pipeline.idEx)) = true)
  rw [Bool.and_eq_true, decide_eq_true_eq] at hx
  exact hx.2 (h.operands t m (runs_of_drive .start hm) hx.1).1

end RvPipeline
