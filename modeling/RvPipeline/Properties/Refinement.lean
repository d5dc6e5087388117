import RvPipeline.Pipeline.Progress

/-!
# The pipeline and the sequential machine

`seqRun instrOf s₀` executes one instruction at a time, in program order, as the
ISA says. The pipeline is compared with it where the CPU halts and where a cycle
throws, for programs whose stores stay clear of the next two words.

Results:

* `halts_iff_sequential_halts`: the pipeline halts exactly if the sequential run
  does, in the same state.
* `throws_iff_sequential_faults`: it throws exactly if the sequential run reaches
  an access outside memory, with the state before that access.
-/

namespace RvPipeline

open Isa

section

variable {m₀ m : Machine} {t : Trace} {g : Slots}

/-- The path of a run that has halted is the sequential run. -/
theorem Finished.seqPath (h : Finished m₀ t m)
    (hclean : StoresSpareNextTwo instrOf (archOf m₀.cpu)) :
    SeqPath instrOf (archOf m₀.cpu) t.issued :=
  h.path.seqPath hclean h.faultFree

/-- The instruction in the memory stage that makes a cycle throw is the next one of
    the sequential run. -/
theorem Reached.seqFaults (h : Reached m₀ t g m)
    (hclean : StoresSpareNextTwo instrOf (archOf m₀.cpu)) (hf : MemFaults (archOf m₀.cpu) g) :
    SeqFaults instrOf (archOf m₀.cpu) g.accessed.length := by
  obtain ⟨x, hx, hfault⟩ := hf
  have hseq := h.seqPath hclean
  have hpath := h.inv.front.path
  have htaken : g.taken = (g.accessed ++ [x]) ++ g.ex.toList := by
    rw [Slots.taken, Slots.executed, hx, Option.toList_some]
  rw [htaken] at hpath
  have hnext := hpath.of_append.of_snoc.2
  have hword := hnext.word_eq hseq hclean
  have hrun := hnext.running
  rw [hseq.state] at hrun hfault
  rw [hword] at hfault
  exact ⟨hrun, hfault⟩

/-- **The pipeline refines the sequential machine**: as long as no store writes to
    one of the next two words and no access is out of range, it halts exactly if
    the sequential run does, with the same registers, memory, `pc` and
    instruction count. -/
theorem halts_iff_sequential_halts (h₀ : Initial m₀)
    (hclean : StoresSpareNextTwo instrOf (archOf m₀.cpu))
    (hnf : ∀ n, ¬ SeqFaults instrOf (archOf m₀.cpu) n) :
    ((∃ t m, HaltsIn m₀ t m) ↔ ∃ n, (seqRun instrOf (archOf m₀.cpu) n).halted = true) ∧
      ∀ t m, HaltsIn m₀ t m → ∀ n, (seqRun instrOf (archOf m₀.cpu) n).halted = true →
        archOf m.cpu = seqRun instrOf (archOf m₀.cpu) n := by
  refine ⟨⟨?_, ?_⟩, ?_⟩
  · rintro ⟨t, m, hm⟩
    have hfin := hm.finished h₀
    refine ⟨t.issued.length, ?_⟩
    rw [← (hfin.seqPath hclean).state, hfin.halted]
  · rintro ⟨n, hn⟩
    rcases ends_of_seqEnds h₀ hclean (Or.inl hn) with hhalts | ⟨m, hthrows⟩
    · exact hhalts
    · obtain ⟨t, g, m₁, hg, hf, -⟩ := hthrows.reached h₀
      exact absurd (hg.seqFaults hclean hf) (hnf _)
  · intro t m hm n hn
    have hfin := hm.finished h₀
    have hseq := hfin.seqPath hclean
    rw [hfin.state, hseq.state]
    refine seqRun_eq_of_halted ?_ hn
    rw [← hseq.state, hfin.halted]

/-- A store, and a load of what it has stored. -/
def storeAndLoad : Machine :=
  .ofProgram [0x00700093, 0x00102823, 0x01002103, 0x00000073, 0x00000000]

theorem storeAndLoad_halts : ∃ t m, HaltsIn storeAndLoad t m ∧ archOf m.cpu =
    seqRun instrOf (archOf storeAndLoad.cpu) 4 := by
  have hend : (seqRun instrOf (archOf storeAndLoad.cpu) 4).halted = true := by decide +kernel
  have hinit : Initial storeAndLoad := ⟨rfl, rfl⟩
  obtain ⟨hiff, hstate⟩ := halts_iff_sequential_halts hinit
    (storesSpareNextTwo_of_seqEnds (Or.inl hend) (by decide +kernel))
    (not_seqFaults_of_halted hend (by decide +kernel))
  obtain ⟨t, m, hm⟩ := hiff.mpr ⟨4, hend⟩
  exact ⟨t, m, hm, hstate t m hm 4 hend⟩

/-- **Faults are precise**: as long as no store writes to one of the next two words,
    a cycle throws exactly if the sequential run reaches an access out of range,
    and leaves registers, memory and instruction count as they are before it. -/
theorem throws_iff_sequential_faults (h₀ : Initial m₀)
    (hclean : StoresSpareNextTwo instrOf (archOf m₀.cpu)) :
    ((∃ m, ThrowsIn m₀ m) ↔ ∃ n, SeqFaults instrOf (archOf m₀.cpu) n) ∧
      ∀ m, ThrowsIn m₀ m → ∀ n, SeqFaults instrOf (archOf m₀.cpu) n →
        m.cpu.regs = (seqRun instrOf (archOf m₀.cpu) n).regs ∧
        m.cpu.memory = (seqRun instrOf (archOf m₀.cpu) n).mem ∧
        m.cpu.stats.instructionCount = (seqRun instrOf (archOf m₀.cpu) n).instret := by
  refine ⟨⟨?_, ?_⟩, ?_⟩
  · rintro ⟨m, hm⟩
    obtain ⟨t, g, m₁, hg, hf, -⟩ := hm.reached h₀
    exact ⟨_, hg.seqFaults hclean hf⟩
  · rintro ⟨n, hn⟩
    rcases ends_of_seqEnds h₀ hclean (Or.inr hn) with ⟨t, m, hhalts⟩ | hthrows
    · have hfin := hhalts.finished h₀
      have hseq := hfin.seqPath hclean
      have hhalted := hfin.halted
      rw [hseq.state] at hhalted
      have hlt := lt_of_running hhalted hn.1
      exact absurd (hseq.length_le (Or.inr hn)) (not_le.mpr hlt)
    · exact hthrows
  · intro m hm n hn
    obtain ⟨t, g, m₁, hg, hf, rfl⟩ := hm.reached h₀
    have hseq := hg.seqPath hclean
    have hwb := afterWB hg.inv.committed hg.inv.latches
    obtain ⟨regs, halted, k, hrest⟩ := hwb.rest
    -- both runs have stopped at the first fault
    have hsame : seqRun instrOf (archOf m₀.cpu) n =
        replay instrOf (archOf m₀.cpu) g.accessed := by
      obtain ⟨j, rfl⟩ := Nat.exists_eq_add_of_le (hseq.length_le (Or.inr hn))
      rw [hseq.state, seqRun_stuck (Or.inr (hg.seqFaults hclean hf))]
    rw [hsame]
    refine ⟨hwb.regs, ?_, hwb.instret⟩
    rw [hrest]
    exact hg.inv.committed.mem

/-- An instruction, and a load behind the end of memory. -/
def strayLoad : Machine := .ofProgram [0x00700093, 0x06402103]

theorem strayLoad_throws : ∃ m, ThrowsIn strayLoad m ∧ m.cpu.regs =
    (seqRun instrOf (archOf strayLoad.cpu) 1).regs := by
  have hend : SeqFaults instrOf (archOf strayLoad.cpu) 1 := by decide +kernel
  have hinit : Initial strayLoad := ⟨rfl, rfl⟩
  obtain ⟨hiff, hstate⟩ := throws_iff_sequential_faults hinit
    (storesSpareNextTwo_of_seqEnds (Or.inr hend) (by decide +kernel))
  obtain ⟨m, hm⟩ := hiff.mpr ⟨1, hend⟩
  exact ⟨m, hm, (hstate m hm 1 hend).1⟩

end

end RvPipeline
