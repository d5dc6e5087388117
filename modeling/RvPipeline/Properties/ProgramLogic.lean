import RvPipeline.Decode.Accepts
import RvPipeline.Isa.Logic
import RvPipeline.Properties.Bubbles
import RvPipeline.Properties.Files
import RvPipeline.Properties.Refinement

/-!
# Verified code on the simulator

What the program logic says about a piece of code holds of the pipeline, for every
branch predictor: the code in memory is executed to its end, without a throw, and in
at most two cycles for each instruction. So it also holds of `main`.

Results:

* `Code.Verified.runsTo`: the logic is sound for the pipeline.
* `Code.In.of_assembled`: assembled code in memory is code for the simulator.
* `main_runs_code`: with a verified program in the image, `main` stops at its end, as soon
  as it may run for two cycles for each instruction, and three more.
-/

namespace RvPipeline

open Isa

section

variable {c : Code} {q : Arch → Prop} {m₀ m : Machine} {t : Trace}

/-- The assembled instructions lie in memory. -/
structure Assembled (c : Code) (mem : Mem) : Prop where
  fits : c.base.toNat + 4 * c.instrs.length ≤ mem.length
  words : mem.words c.base.toNat c.instrs.length = c.instrs.map Instr.encode

theorem Isa.Code.In.of_assembled {mem : Mem} (h : Assembled c mem)
    (hc : c.base.toNat + 4 * c.instrs.length ≤ 2 ^ 32) : c.In instrOf mem := by
  intro k hk
  have hfits := h.fits
  have haddr : (c.addr k).toNat = c.base.toNat + 4 * k := Code.toNat_addr (by omega)
  refine ⟨by omega, ?_⟩
  have hget : mem.word (BitVec.ofNat 32 (c.base.toNat + 4 * k)) = c.instrs[k].encode := by
    rw [← Mem.getElem_words _ _ _ _ (by simpa using hk)]
    simp only [h.words, List.getElem_map]
  rw [← haddr, BitVec.ofNat_toNat, BitVec.setWidth_eq] at hget
  rw [hget, instrOf_encode]

/-- What is taken from memory in a verified run are instructions. -/
theorem Finished.inProgram (h : Finished m₀ t m) (hv : c.Verified instrOf q (archOf m₀.cpu)) :
    InProgram (archOf m₀.cpu) t.issued := by
  have hseq := h.seqPath hv.spares
  refine ⟨fun x hx => ?_, fun hrun => ?_⟩
  · obtain ⟨p, r, hsplit⟩ := List.append_of_mem hx
    obtain ⟨hrun, -, -, hword⟩ := hseq.words p x r hsplit
    rw [isInstr, hword]
    exact hv.instrs _ hrun
  · rw [h.halted] at hrun
    cases hrun

/-- **The program logic is sound for the pipeline**: a verified run halts there too, and
    nothing throws. -/
theorem Isa.Code.Verified.pipeline (hv : c.Verified instrOf q (archOf m₀.cpu)) (h₀ : Initial m₀) :
    (∃ t m, HaltsIn m₀ t m) ∧ ∀ m, ¬ ThrowsIn m₀ m := by
  obtain ⟨n, hhalted, -⟩ := hv.halts
  have hnothrow : ∀ m, ¬ ThrowsIn m₀ m := by
    intro m hm
    obtain ⟨t, g, m₁, hg, hf, -⟩ := hm.reached h₀
    exact hv.faultFree _ (hg.seqFaults hv.spares hf)
  refine ⟨?_, hnothrow⟩
  rcases ends_of_seqEnds h₀ hv.spares (Or.inl hhalted) with hhalts | ⟨m, hthrows⟩
  · exact hhalts
  · exact absurd hthrows (hnothrow m)

/-- Where the pipeline halts, it is in the state in which the sequential run halts. -/
theorem Isa.Code.Verified.state (hv : c.Verified instrOf q (archOf m₀.cpu)) (h₀ : Initial m₀)
    (hm : HaltsIn m₀ t m) {n : ℕ} (hn : (seqRun instrOf (archOf m₀.cpu) n).halted = true) :
    archOf m.cpu = seqRun instrOf (archOf m₀.cpu) n := by
  have hfin := hm.finished h₀
  have hseq := hfin.seqPath hv.spares
  have hend := hfin.halted
  rw [hseq.state] at hend
  rw [hfin.state, hseq.state, seqRun_eq_of_halted hend hn]

/-- Where the pipeline halts, `q` holds. -/
theorem Isa.Code.Verified.ends (hv : c.Verified instrOf q (archOf m₀.cpu)) (h₀ : Initial m₀)
    (hm : HaltsIn m₀ t m) : q (archOf m.cpu) := by
  obtain ⟨n, hhalted, hq⟩ := hv.halts
  rw [hv.state h₀ hm hhalted]
  exact hq

/-- **The pipeline runs to a halt** with `q`, without a throw, and in at most two cycles for
    each instruction, and three more. -/
structure RunsTo (m₀ : Machine) (q : Arch → Prop) : Prop where
  halts : ∃ t m, HaltsIn m₀ t m
  faultFree : ∀ m, ¬ ThrowsIn m₀ m
  ends : ∀ t m, HaltsIn m₀ t m → q (archOf m.cpu)
  inTime : m₀.cpu.stats = {} → ∀ t m, HaltsIn m₀ t m →
    m.cpu.stats.clockCycles ≤ 2 * m.cpu.stats.instructionCount + 3

theorem Isa.Code.Verified.runsTo (hv : c.Verified instrOf q (archOf m₀.cpu)) (h₀ : Initial m₀) :
    RunsTo m₀ q where
  halts := (hv.pipeline h₀).1
  faultFree := (hv.pipeline h₀).2
  ends := fun _ _ hm => hv.ends h₀ hm
  inTime := fun hstats _ _ hm => hm.clock_le h₀ hstats ((hm.finished h₀).inProgram hv)

/-! ## `main` -/

variable {env : Environment} {args : List Path} {options : MainOptions} {program : LoadedProgram}

theorem Image.unique {program' : LoadedProgram} (h : Image env options program)
    (h' : Image env options program') : program = program' := by
  unfold Image at h h'
  split at h
  · rename_i hpath
    rw [if_pos hpath] at h'
    rw [h, h']
  · rename_i hpath
    rw [if_neg hpath, h] at h'
    cases h'
    rfl

theorem Boots.unique {m₀' : Machine} (h : Boots options program m₀)
    (h' : Boots options program m₀') : m₀ = m₀' := by
  have hcpu := h.loads.symm.trans h'.loads
  have hpipeline := h.pipeline.trans h'.pipeline.symm
  cases m₀
  cases m₀'
  cases hcpu
  cases hpipeline
  rfl

/-- Loading a program only changes memory, `pc`, the log and the halt flag. -/
theorem loadProgram_frame {bytes : List Byte} {base : Word} {cpu₀ cpu : CPU} (hne : bytes ≠ [])
    (h : CPU.loadProgram bytes base cpu₀ = .ok () cpu) :
    cpu = { cpu₀ with memory := cpu.memory, pc := base, halted := false, memoryWrites := [] } := by
  unfold CPU.loadProgram at h
  simp only [if_neg hne, bind, EStateM.bind, get, getThe, MonadStateOf.get, get_run,
    validateMemoryAccess_eq cpu₀ base (List.length_pos_iff.mpr hne)] at h
  by_cases hin : cpu₀.InBounds base bytes.length
  · rw [if_pos hin] at h
    cases h
    rfl
  · rw [if_neg hin] at h
    cases h

theorem Boots.stats (h : Boots options program m₀) (hne : program.bytes ≠ []) :
    m₀.cpu.stats = {} := by
  rw [loadProgram_frame hne h.loads]
  rfl

/-- A run of a booted machine that halts in time is the one `main` stops after. -/
theorem stopsIn_of_haltsIn (himage : Image env options program)
    (hboots : Boots options program m₀) (hm : HaltsIn m₀ t m)
    (htime : InTime options.toCliOptions m.cpu) : StopsIn env options m := by
  have hne := himage.bytes_ne_nil
  obtain ⟨hrun, -⟩ :=
    (runLoop_halts_iff (hboots.initial hne) (hboots.stats hne)).mpr ⟨⟨t, hm⟩, htime⟩
  exact ⟨program, m₀, himage, hboots, hrun⟩

theorem StopsIn.unique {m' : Machine} (h : StopsIn env options m) (h' : StopsIn env options m') :
    m = m' := by
  obtain ⟨program, m₀, himage, hboots, hrun⟩ := h
  obtain ⟨program', m₀', himage', hboots', hrun'⟩ := h'
  cases himage.unique himage'
  cases hboots.unique hboots'
  rw [hrun] at hrun'
  cases hrun'
  rfl

/-- **`main` runs verified code**: if the image holds a program with a verified run, and `main`
    may run for two cycles for each instruction, and three more, and for all of its
    instructions, the run stops at a halt, with `q`. What is left is that the dumps and the
    export are possible and the expectations are met. -/
theorem main_runs_code (hparse : parseCli args = .ok options) (hhelp : options.showHelp = false)
    (himage : Image env options program) (hboots : Boots options program m₀)
    (hv : c.Verified instrOf q (archOf m₀.cpu)) :
    ∃ n, (seqRun instrOf (archOf m₀.cpu) n).halted = true ∧
      (2 * (seqRun instrOf (archOf m₀.cpu) n).instret + 3 ≤ options.maxCycles →
        (options.hasRetireCount = true →
          (seqRun instrOf (archOf m₀.cpu) n).instret ≤ options.retireCount) →
        ∃ m, StopsIn env options m ∧ m.cpu.halted = true ∧ q (archOf m.cpu) ∧
          ∀ w, (∃ w', main env args w = some (.success, w')) ↔ Accepted env options m.cpu) := by
  have h₀ := hboots.initial himage.bytes_ne_nil
  have hstats := hboots.stats himage.bytes_ne_nil
  obtain ⟨n, hhalted, -⟩ := hv.halts
  refine ⟨n, hhalted, fun hmax htarget => ?_⟩
  have hruns := hv.runsTo h₀
  obtain ⟨t, m, hm⟩ := hruns.halts
  have hclock := hruns.inTime hstats t m hm
  have hcount : m.cpu.stats.instructionCount = (seqRun instrOf (archOf m₀.cpu) n).instret :=
    congrArg Arch.instret (hv.state h₀ hm hhalted)
  rw [← hcount] at hmax htarget
  have hstops := stopsIn_of_haltsIn himage hboots hm ⟨hclock.trans hmax, htarget⟩
  refine ⟨m, hstops, hm.2, hruns.ends t m hm, fun w => ?_⟩
  rw [exists_congr fun w' => main_eq_success_iff, mainBody_yields w]
  constructor
  · rintro ⟨options', hparse', hrun⟩
    rw [hparse] at hparse'
    cases hparse'
    rcases hrun with hhelp' | ⟨-, m', hstops', haccepted⟩
    · rw [hhelp] at hhelp'
      cases hhelp'
    · rw [hstops.unique hstops']
      exact haccepted
  · intro haccepted
    exact ⟨options, hparse, .inr ⟨hhelp, m, hstops, haccepted⟩⟩

end

/-- A program of two instructions. -/
def fiveCode : Code := ⟨0, [.opImm .addi 1 0 5, .ecall]⟩

/-- A system with the image of the program. -/
def fiveSystem : Environment :=
  { emptySystem with contents := fun _ => some (bytesOf (fiveCode.instrs.map Instr.encode)) }

def fiveArgs : List Path := ["five.bin".toList, "--memory-size=8".toList]

def fiveOptions : MainOptions := { programPath := "five.bin".toList, memorySize := 8 }

theorem fiveCode_succeeds : ∃ m w', StopsIn fiveSystem fiveOptions m ∧
    (archOf m.cpu).reg 1#5 = 5#32 ∧ main fiveSystem fiveArgs {} = some (.success, w') := by
  let m₀ : Machine := .ofProgram (fiveCode.instrs.map Instr.encode)
  have hleads : fiveCode.Leads instrOf (fun s => s.halted = true ∧ s.reg 1#5 = 5#32)
      (archOf m₀.cpu) := by
    refine .next (k := 0) ⟨rfl, rfl⟩ rfl rfl fun hat => ?_
    refine .halt hat rfl ?_
    simp
  have hcode : Assembled fiveCode m₀.cpu.memory := ⟨by decide, by decide +kernel⟩
  have hv := hleads.verified_of_halts (Code.In.of_assembled hcode (by decide))
  have himage : Image fiveSystem fiveOptions ⟨m₀.cpu.memory, 2⟩ := rfl
  have hparse : parseCli fiveArgs = .ok fiveOptions := rfl
  have hboots : Boots fiveOptions ⟨m₀.cpu.memory, 2⟩ m₀ := ⟨rfl, rfl⟩
  obtain ⟨n, hhalted, hruns⟩ := main_runs_code hparse rfl himage hboots hv
  have htwo : (seqRun instrOf (archOf m₀.cpu) 2).halted = true := by decide +kernel
  rw [seqRun_eq_of_halted hhalted htwo] at hruns
  obtain ⟨m, hstops, hm, hfive, hmain⟩ := hruns (by decide +kernel) Bool.false_ne_true.elim
  have haccepted : Accepted fiveSystem fiveOptions m.cpu :=
    ⟨.inl hm, Bool.false_ne_true.elim, .inl rfl, fun check h => absurd h List.not_mem_nil⟩
  obtain ⟨w', hw'⟩ := (hmain {}).mpr haccepted
  exact ⟨m, w', hstops, hfive, hw'⟩

end RvPipeline
