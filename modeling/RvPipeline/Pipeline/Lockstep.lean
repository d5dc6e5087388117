import RvPipeline.Pipeline.Memory
import RvPipeline.State.Lockstep

/-!
# The memory stage of two machines

* `SameAccess`: a relation of two machines that makes `stage_MEM` find the same access
  on both.
* `SameAccess.lockstep_stageMEM`: then `stage_MEM` does the same to both. What it leaves
  alone on one machine is the case of a machine and itself.
-/

namespace RvPipeline

open Isa State

/-- The latches differ at most in a value that `stage_MEM` does not store. -/
def EXMEMRegister.Alike (l l' : EXMEMRegister) : Prop :=
  ∃ v, l' = { l with storeValue := v } ∧ (l.control.memWrite = true → v = l.storeValue)

/-- On related machines `stage_MEM` accesses the same bytes of the same memory, and what
    it changes keeps them related. -/
structure SameAccess (R : Machine → Machine → Prop) : Prop where
  memory : ∀ {m m'}, R m m' → m'.cpu.memory = m.cpu.memory
  exMem : ∀ {m m'}, R m m' → m.pipeline.exMem.Alike m'.pipeline.exMem
  store : ∀ {m m'}, R m m' → ∀ memory entries,
    R { m with cpu := { m.cpu with
        memory := memory, memoryWrites := m.cpu.memoryWrites ++ entries } }
      { m' with cpu := { m'.cpu with
        memory := memory, memoryWrites := m'.cpu.memoryWrites ++ entries } }
  latch : ∀ {m m'}, R m m' → ∀ next,
    R { m with pipeline.nextMemWb := next } { m' with pipeline.nextMemWb := next }

/-! ## The memory stage -/

theorem readMemory_congr {cpu cpu' : CPU} (h : cpu'.memory = cpu.memory) (address : Word)
    (control : ControlSignals) :
    readMemory cpu' address control = readMemory cpu address control := by
  obtain ⟨width, load, hrun⟩ := readMemory_run address control
  simp only [hrun, CPU.inBounds_congr h, h]

section

variable {R : Machine → Machine → Prop}

theorem lockstep_liftExcept {α : Type} (x : Except OutOfRange α) :
    Lockstep R (liftExcept x : Sim α) (liftExcept x) := by
  intro m m' h
  rw [liftExcept_run, liftExcept_run]
  cases x with
  | ok a => exact .ok a h
  | error e => exact .error e h

variable (hR : SameAccess R)

include hR

theorem SameAccess.lockstep_writeMemory (address value : Word) (control : ControlSignals) :
    Lockstep R (onCpu (writeMemory address value control))
      (onCpu (writeMemory address value control)) := by
  intro m m' h
  obtain ⟨width, store, entries, hrun⟩ := writeMemory_run address value control
  have hmem := hR.memory h
  unfold onCpu
  simp only [hrun, CPU.inBounds_congr hmem, hmem]
  by_cases hb : width = 0 ∨ m.cpu.InBounds address width
  · simp only [hb, if_true]
    exact .ok () (hR.store h _ _)
  · simp only [hb, if_false]
    exact .error ramBounds h

theorem SameAccess.lockstep_latch (next : MEMWBRegister) : Lockstep R
    (modify fun m : Machine => { m with pipeline.nextMemWb := next } : Sim PUnit)
    (modify fun m : Machine => { m with pipeline.nextMemWb := next } : Sim PUnit) :=
  .modify fun _ _ h => hR.latch h next

/-- **The memory stage** stores the same bytes, loads the same and throws alike. -/
theorem SameAccess.lockstep_stageMEM : Lockstep R stageMEM stageMEM := by
  unfold stageMEM
  refine .get_bind fun m m' h => ?_
  obtain ⟨v, hexMem, hv⟩ := hR.exMem h
  rw [hexMem]
  dsimp only
  have hstore : m.pipeline.exMem.control.memWrite = true → Lockstep R
      (onCpu (writeMemory m.pipeline.exMem.aluResult m.pipeline.exMem.storeValue
        m.pipeline.exMem.control))
      (onCpu (writeMemory m.pipeline.exMem.aluResult v m.pipeline.exMem.control)) := by
    intro hw
    rw [hv hw]
    exact hR.lockstep_writeMemory _ _ _
  split
  · exact hR.lockstep_latch _
  · split
    · refine .get_bind fun _ _ h => ?_
      rw [readMemory_congr (hR.memory h)]
      refine (lockstep_liftExcept _).bind fun data => ?_
      split
      · next hw => exact (hstore hw).bind fun _ => hR.lockstep_latch _
      · exact hR.lockstep_latch _
    · refine (Lockstep.pure _).bind fun data => ?_
      split
      · next hw => exact (hstore hw).bind fun _ => hR.lockstep_latch _
      · exact hR.lockstep_latch _

end

end RvPipeline
