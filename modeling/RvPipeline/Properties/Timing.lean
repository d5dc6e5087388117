import RvPipeline.Pipeline.Progress

/-!
# Cycle counts

* `cycle_count`: how long a run takes, and how often it stalls, in terms of the
  words on the executed path.
-/

namespace RvPipeline

open Isa

/-- The executed `jal` and `jalr` that do not fall through. -/
def takenJumps (m₀ : Machine) (t : Trace) : List Word :=
  observe instrOf jumpsAway (archOf m₀.cpu) t.issued

/-- The words on the executed path that the decode stage discards. -/
def discarded (t : Trace) : List Fetched := t.issued.filter fun x => !isInstr instrOf x

theorem length_issued (t : Trace) :
    t.issued.length = (t.issued.filter (isInstr instrOf)).length + (discarded t).length := by
  rw [discarded, List.length_eq_length_filter_add (isInstr instrOf)]

/-- **Cycle counts are exact**: one cycle for every instruction, every load-use
    stall, every mispredicted branch, every jump and every discarded word on the
    executed path, and four more; a stall for every load that feeds the
    instruction behind it. -/
theorem cycle_count {m₀ m : Machine} {t : Trace} (h₀ : Initial m₀) (hstats : m₀.cpu.stats = {})
    (h : HaltsIn m₀ t m) :
    m.cpu.stats.clockCycles = m.cpu.stats.instructionCount + m.cpu.stats.stallCycles +
        m.cpu.stats.branchMispredictions + (takenJumps m₀ t).length + (discarded t).length + 4 ∧
      m.cpu.stats.stallCycles = loadUses t.issued ∧
      t.retired = t.issued.filter (isInstr instrOf) := by
  have hfin := h.finished h₀
  have hcount : m.cpu.stats.instructionCount = (t.issued.filter (isInstr instrOf)).length := by
    change (archOf m.cpu).instret = _
    rw [hfin.state, replay_instret]
    change m₀.cpu.stats.instructionCount + _ = _
    rw [hstats]
    exact Nat.zero_add _
  have hclock := hfin.clock
  have hlength := length_issued t
  have hstall := hfin.stalls
  rw [hstats] at hclock hstall
  change _ + 0 + 0 = 0 + _ + _ + _ + (takenJumps m₀ t).length + 4 at hclock
  refine ⟨by omega, ?_, hfin.retired⟩
  rw [hstall]
  exact Nat.zero_add _

/-- A load that feeds the next instruction, a jump, and a word that is no
    instruction in front of the `ecall`. -/
def stallJumpSkip : Machine :=
  .ofProgram [0x01402083, 0x00108113, 0x0080006F, 0x00000013, 0x00000000, 0x00000073]

theorem stallJumpSkip_cycles : ∃ t m, HaltsIn stallJumpSkip t m ∧
    m.cpu.stats.clockCycles = 4 + 1 + 0 + 1 + 1 + 4 := by
  obtain ⟨t, m, hm, hx⟩ := exists_haltsIn stallJumpSkip 11 (fun x => x.1.issued ==
    [⟨0, 0x01402083⟩, ⟨4, 0x00108113⟩, ⟨8, 0x0080006F⟩, ⟨16, 0x00000000⟩, ⟨20, 0x00000073⟩] &&
      x.2.cpu.stats.instructionCount == 4 && x.2.cpu.stats.branchMispredictions == 0)
    (by decide +kernel)
  simp only [Bool.and_eq_true, beq_iff_eq] at hx
  obtain ⟨⟨hissued, hcount⟩, hmiss⟩ := hx
  have hinit : Initial stallJumpSkip := ⟨rfl, rfl⟩
  obtain ⟨hclock, hstall, -⟩ := cycle_count hinit rfl hm
  have hjumps : (takenJumps stallJumpSkip t).length = 1 := by
    rw [takenJumps, hissued]
    decide +kernel
  have hdiscarded : (discarded t).length = 1 := by
    rw [discarded, hissued]
    decide +kernel
  have hloads : loadUses t.issued = 1 := by
    rw [hissued]
    decide +kernel
  exact ⟨t, m, hm, by rw [hclock, hstall, hcount, hmiss, hjumps, hdiscarded, hloads]⟩

end RvPipeline
