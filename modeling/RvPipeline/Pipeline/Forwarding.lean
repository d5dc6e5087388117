import RvPipeline.Pipeline.Slots

/-!
# Forwarding delivers the registers of the sequential machine

An operand copied into `ID/EX` may be two instructions old. `operandsOf_slots`:
what `resolve_forwarding` makes of it is the register after the instructions in
`MEM/WB` and `EX/MEM`, provided the one in `EX/MEM` is no load of it.
-/

namespace RvPipeline

open Isa

/-! ## One operand -/

/-- The `EX/MEM` half of `resolve_forwarding` for one operand. -/
def exMemOperand (exMem : EXMEMRegister) (r : Reg) (v : Word) : Word :=
  if canForwardFromExMem exMem ∧ r ≠ 0#5 ∧ r = exMem.rd then exMemForwardValue exMem else v

/-- The `MEM/WB` half of `resolve_forwarding` for one operand. -/
def memWbOperand (memWb : MEMWBRegister) (r : Reg) (v : Word) : Word :=
  if canForwardFromMemWb memWb ∧ r ≠ 0#5 ∧ r = memWb.rd then memWbForwardValue memWb else v

/-- Both operands are resolved the same way: `EX/MEM` first, then `MEM/WB`. -/
theorem resolveForwarding_eq (idEx : IDEXRegister) (p : PipelineRegisters) :
    (resolveForwarding idEx p).rs1Value =
        exMemOperand p.exMem idEx.rs1 (memWbOperand p.memWb idEx.rs1 idEx.rs1Value) ∧
      (resolveForwarding idEx p).rs2Value =
        exMemOperand p.exMem idEx.rs2 (memWbOperand p.memWb idEx.rs2 idEx.rs2Value) := by
  unfold resolveForwarding forwardFromExMem forwardFromMemWb exMemOperand memWbOperand
  have pick : ∀ c : Prop, c = True ∨ c = False := fun c => Classical.propComplete c
  rcases pick (idEx.rs1 ≠ 0#5 ∧ idEx.rs1 = p.exMem.rd) with h1 | h1 <;>
    rcases pick (idEx.rs2 ≠ 0#5 ∧ idEx.rs2 = p.exMem.rd) with h2 | h2 <;>
    rcases pick (idEx.rs1 ≠ 0#5 ∧ idEx.rs1 = p.memWb.rd) with h3 | h3 <;>
    rcases pick (idEx.rs2 ≠ 0#5 ∧ idEx.rs2 = p.memWb.rd) with h4 | h4 <;>
    simp only [h1, h2, h3, h4] <;>
    cases canForwardFromExMem p.exMem <;> cases canForwardFromMemWb p.memWb <;> simp

theorem memWbForwardValue_eq (memWb : MEMWBRegister) :
    memWbForwardValue memWb = selectWritebackValue memWb := rfl

/-! ## Over the slots -/

section

variable {s : Arch} {p : List Fetched} {y : Option Fetched}

/-- The register an instruction writes is its `rd` field. -/
theorem dest_eq_iff {w : Word} {i : Instr} (h : instrOf w = some i) (r : Reg) :
    i.dest = some r ↔ i.dest.isSome = true ∧ r = rdOf w := by
  constructor
  · intro hd
    exact ⟨by rw [hd]; rfl, dest_of_instrOf h hd⟩
  · rintro ⟨hd, rfl⟩
    obtain ⟨rd, hrd⟩ := Option.isSome_iff_exists.mp hd
    rw [hrd, dest_of_instrOf h hrd]

/-- `MEM/WB` delivers what its instruction will have written. -/
theorem memWbOperand_slot {memWb : MEMWBRegister} (r : Reg)
    (h : Slot (fun x i => MemWbOf ((replay instrOf s p).goto x.pc) x i memWb) y memWb.valid) :
    memWbOperand memWb r ((replay instrOf s p).reg r) =
      (replay instrOf s (p ++ y.toList)).reg r := by
  unfold memWbOperand canForwardFromMemWb
  generalize hv : memWb.valid = v at h
  cases h with
  | bubble => simp
  | @skipped x hx =>
    rw [Option.toList_some, replay_skipped hx]
    exact if_neg (by simp)
  | @instr x i hi hl =>
    have hgoto : ((replay instrOf s p).goto x.pc).reg r = (replay instrOf s p).reg r := rfl
    rw [Option.toList_some, replay_instr hi, Arch.reg_exec, hgoto, hl.control, hl.rd,
      memWbForwardValue_eq, control_regWrite]
    simp only [dest_eq_iff hi]
    by_cases hd : i.dest.isSome = true
    · rw [hl.value hd]
      by_cases hr : r = rdOf x.word
      · subst hr
        simp [hd]
      · simp [hr]
    · simp [hd]

/-- `EX/MEM` delivers what its instruction will have written, if it is no load. -/
theorem exMemOperand_slot {exMem : EXMEMRegister} (r : Reg)
    (h : Slot (fun x i => ExMemOf ((replay instrOf s p).goto x.pc) x i exMem) y exMem.valid)
    (hload : ∀ x i, y = some x → instrOf x.word = some i → i.isLoad = true → i.dest = some r →
      r = 0#5) :
    exMemOperand exMem r ((replay instrOf s p).reg r) =
      (replay instrOf s (p ++ y.toList)).reg r := by
  unfold exMemOperand canForwardFromExMem
  generalize hv : exMem.valid = v at h
  cases h with
  | bubble => simp
  | @skipped x hx =>
    rw [Option.toList_some, replay_skipped hx]
    exact if_neg (by simp)
  | @instr x i hi hl =>
    have hgoto : ((replay instrOf s p).goto x.pc).reg r = (replay instrOf s p).reg r := rfl
    rw [Option.toList_some, replay_instr hi, Arch.reg_exec, hgoto, hl.control, hl.rd,
      control_regWrite, control_memRead]
    cases hil : i.isLoad with
    | true =>
      have h0 := hload x i rfl hi hil
      by_cases hd : i.dest = some r
      · simp [h0 hd]
      · simp [hd]
    | false =>
      simp only [dest_eq_iff hi]
      by_cases hd : i.dest.isSome = true
      · rw [hl.value hd hil]
        by_cases hr : r = rdOf x.word
        · subst hr
          simp [hd]
        · simp [hr]
      · simp [hd]

end

end RvPipeline
