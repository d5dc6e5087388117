import RvPipeline.Model.Program
import RvPipeline.State.Outcome
import RvPipeline.StateDump.Dumps

/-!
# What the output functions can do

The simulator's output functions return from every state of the stream, whatever
has been written before, except for ranges that do not lie in memory or are too
long to be printed.

Results:

* `printMemoryDump_yields`, `printMemoryDump_diverges`: when a dump returns, and when it
  never ends.
* `printWrittenMemoryDump_total`: the dump of what has been written returns.
* `toFile_yields`: writing to a file depends on nothing that has been written before.
* `keeps_onCout`, `toFile_keeps`: which files stay as they are.
-/

namespace RvPipeline

open Isa Text State

/-! ## Streams -/

section

variable {cpu : CPU}

theorem total_emit (f : OStream → OStream) : Total (emit f) := total_modify f

/-- A byte in memory can be printed. -/
theorem printRowByte_total {a : Word} (h : cpu.InBounds a 1) : Total (printRowByte cpu a) := by
  unfold printRowByte
  rw [readU8_eq, if_pos h]
  exact (total_emit _).bind fun _ => (total_pure _).bind fun _ => total_emit _

theorem printRow_total {addresses : List Word} (h : ∀ a ∈ addresses, cpu.InBounds a 1)
    (indent : String) (label : ℕ) : Total (printRow cpu indent label addresses) :=
  (total_emit _).bind fun _ =>
    (total_forM fun a ha => printRowByte_total (h a ha)).bind fun _ => total_emit _

theorem inBounds_of_lt {a : Word} (h : a.toNat < cpu.memorySize) : cpu.InBounds a 1 := h

/-! ## Dumps -/

theorem printRegisterDump_total (cpu : CPU) : Total (printRegisterDump cpu) :=
  (total_emit _).bind fun _ => total_forM fun _ _ => total_emit _

section

variable {startAddress byteCount offset : Word}

/-- The bytes of one row lie in memory if the range does. -/
theorem rowAddresses_inBounds (hsize : cpu.memorySize < 2 ^ 32)
    (hb : startAddress.toNat + byteCount.toNat ≤ cpu.memorySize) (hlt : offset < byteCount) :
    ∀ a ∈ (List.range (min 16 (byteCount - offset).toNat)).map fun i =>
      startAddress + offset + BitVec.ofNat 32 i, cpu.InBounds a 1 := by
  have hlt' : offset.toNat < byteCount.toNat := hlt
  have haddress : (startAddress + offset).toNat = startAddress.toNat + offset.toNat := by
    rw [BitVec.toNat_add, Nat.mod_eq_of_lt (by omega)]
  have hcount : (byteCount - offset).toNat = byteCount.toNat - offset.toNat := by
    rw [BitVec.toNat_sub_of_le (BitVec.le_of_lt hlt)]
  intro a ha
  obtain ⟨i, hi, rfl⟩ := List.mem_map.mp ha
  rw [List.mem_range, hcount] at hi
  refine inBounds_of_lt ?_
  rw [toNat_add_ofNat (by omega)]
  omega

/-- The rows of a range in memory are printed to the last, unless their offset wraps around. -/
theorem printRows_total (hsize : cpu.memorySize < 2 ^ 32)
    (hb : startAddress.toNat + byteCount.toNat ≤ cpu.memorySize)
    (hcount : byteCount.toNat ≤ 2 ^ 32 - 16) (fuel : ℕ) (offset : Word)
    (hfuel : byteCount.toNat - offset.toNat < fuel) :
    Total (printRows cpu startAddress byteCount fuel offset) := by
  induction fuel generalizing offset with
  | zero => omega
  | succ fuel ih =>
    rw [printRows]
    by_cases hlt : offset < byteCount
    · have hlt' : offset.toNat < byteCount.toNat := hlt
      have hnext : (offset + 16).toNat = offset.toNat + 16 := by
        rw [BitVec.toNat_add]
        change (offset.toNat + 16) % 2 ^ 32 = _
        omega
      rw [if_pos hlt]
      exact (printRow_total (rowAddresses_inBounds hsize hb hlt) _ _).bind fun _ =>
        ih (offset + 16) (by omega)
    · rw [if_neg hlt]
      exact total_pure _

/-- A longer range is printed without end. -/
theorem printRows_diverges (hsize : cpu.memorySize < 2 ^ 32)
    (hb : startAddress.toNat + byteCount.toNat ≤ cpu.memorySize)
    (hcount : 2 ^ 32 - 16 < byteCount.toNat) (fuel : ℕ) (offset : Word)
    (hoffset : offset.toNat % 16 = 0) :
    Diverges (printRows cpu startAddress byteCount fuel offset) True := by
  induction fuel generalizing offset with
  | zero => exact fun o => iff_of_true rfl trivial
  | succ fuel ih =>
    have hlt : offset < byteCount := by
      rw [BitVec.lt_def]
      have h := offset.isLt
      omega
    have hnext : (offset + 16).toNat % 16 = 0 := by
      rw [BitVec.toNat_add]
      change (offset.toNat + 16) % 2 ^ 32 % 16 = 0
      omega
    rw [printRows, if_pos hlt]
    exact .after (printRow_total (rowAddresses_inBounds hsize hb hlt) _ _) fun _ =>
      ih (offset + 16) hnext

/-- The range of a dump lies in memory, and its last row starts below `2^32 - 16`. -/
def DumpFits (cpu : CPU) (startAddress byteCount : Word) : Prop :=
  startAddress.toNat + byteCount.toNat ≤ cpu.memorySize ∧ byteCount.toNat ≤ 2 ^ 32 - 16

/-- The range of a dump lies in memory, and the offset of its rows wraps around. -/
def DumpEndless (cpu : CPU) (startAddress byteCount : Word) : Prop :=
  startAddress.toNat + byteCount.toNat ≤ cpu.memorySize ∧ 2 ^ 32 - 16 < byteCount.toNat

theorem rows_fuel (byteCount : Word) : byteCount.toNat - (0 : Word).toNat < 2 ^ 32 :=
  Nat.lt_of_le_of_lt (Nat.sub_le _ _) byteCount.isLt

/-- **A dump returns** exactly if its range fits. -/
theorem printMemoryDump_yields (hsize : cpu.memorySize < 2 ^ 32) :
    Yields (printMemoryDump cpu startAddress byteCount) () (DumpFits cpu startAddress byteCount) := by
  intro o
  by_cases hb : startAddress.toNat + byteCount.toNat > cpu.memorySize
  · rw [printMemoryDump, if_pos hb]
    refine iff_of_false ?_ fun h => Nat.not_le.mpr hb h.1
    rintro ⟨o', h⟩
    cases h
  · rw [printMemoryDump, if_neg hb]
    have hle := Nat.not_lt.mp hb
    by_cases hcount : byteCount.toNat ≤ 2 ^ 32 - 16
    · refine iff_of_true ?_ ⟨hle, hcount⟩
      exact (Total.yields ((total_emit _).bind fun _ =>
        printRows_total hsize hle hcount _ _ (rows_fuel byteCount)) o).mpr trivial
    · refine iff_of_false ?_ fun h => hcount h.2
      rintro ⟨o', h⟩
      refine absurd h (Diverges.not_returns ?_ trivial)
      exact .after (total_emit _) fun _ =>
        printRows_diverges hsize hle (Nat.not_le.mp hcount) (2 ^ 32) 0 rfl

/-- **A dump never ends** exactly if its rows are printed over and over. -/
theorem printMemoryDump_diverges (hsize : cpu.memorySize < 2 ^ 32) :
    Diverges (printMemoryDump cpu startAddress byteCount)
      (DumpEndless cpu startAddress byteCount) := by
  by_cases hb : startAddress.toNat + byteCount.toNat > cpu.memorySize
  · rw [printMemoryDump, if_pos hb]
    refine (ends_throw _).diverges.congr (iff_of_false id ?_)
    exact fun h => Nat.not_le.mpr hb h.1
  · rw [printMemoryDump, if_neg hb]
    have hle := Nat.not_lt.mp hb
    by_cases hcount : byteCount.toNat ≤ 2 ^ 32 - 16
    · refine ((total_emit _).bind fun _ =>
        printRows_total hsize hle hcount _ _ (rows_fuel byteCount)).ends.diverges.congr ?_
      exact iff_of_false id fun h => Nat.not_le.mpr h.2 hcount
    · refine (Diverges.after (total_emit _) fun _ =>
        printRows_diverges hsize hle (Nat.not_le.mp hcount) (2 ^ 32) 0 rfl).congr ?_
      exact iff_of_true trivial ⟨hle, Nat.not_le.mp hcount⟩

end

theorem printWrittenRows_total {rangeEnd : ℕ} (hsize : cpu.memorySize < 2 ^ 32)
    (hb : rangeEnd ≤ cpu.memorySize) (fuel row : ℕ) (hfuel : rangeEnd - row < fuel) :
    Total (printWrittenRows cpu rangeEnd fuel row) := by
  induction fuel generalizing row with
  | zero => omega
  | succ fuel ih =>
    rw [printWrittenRows]
    by_cases hlt : row < rangeEnd
    · rw [if_pos hlt]
      refine (printRow_total ?_ _ _).bind fun _ => ih (row + 16) (by omega)
      intro a ha
      obtain ⟨i, hi, rfl⟩ := List.mem_map.mp ha
      rw [List.mem_range] at hi
      refine inBounds_of_lt ?_
      rw [BitVec.toNat_ofNat, Nat.mod_eq_of_lt (by omega)]
      omega
    · rw [if_neg hlt]
      exact total_pure _

/-- So are those of the bytes that have been written. -/
theorem printWrittenRanges_total {touched : List Bool} (hsize : cpu.memorySize < 2 ^ 32)
    (hlen : touched.length = cpu.memorySize) (fuel : ℕ) {a : ℕ} (ha : a ≤ touched.length)
    (hfuel : touched.length - a < fuel) : Total (printWrittenRanges cpu touched fuel a) := by
  induction fuel generalizing a with
  | zero => omega
  | succ fuel ih =>
    rw [printWrittenRanges]
    by_cases hlt : a < touched.length
    · rw [if_pos hlt]
      obtain ⟨start, hstart, hge, -, hend | ⟨hne, stop, hstop, hprogress, hle, -, -⟩⟩ :=
        scan_spec touched ha
      · simp only [hstart, liftM_some, pure_bind, if_pos hend]
        exact total_pure _
      · simp only [hstart, hstop, liftM_some, pure_bind, if_neg hne]
        refine (total_emit _).bind fun _ => Total.bind ?_ fun _ => ih hle (by omega)
        exact printWrittenRows_total hsize (by omega) (stop + 1) start (by omega)
    · rw [if_neg hlt]
      exact total_pure _

/-- The recorded writes lie in memory. -/
def CPU.WritesInBounds (cpu : CPU) : Prop :=
  RangesInBounds cpu.memorySize (cpu.memoryWrites.map MemoryWrite.range)

/-- **The dump of what has been written returns.** -/
theorem printWrittenMemoryDump_total (hsize : cpu.memorySize < 2 ^ 32) (hb : cpu.WritesInBounds) :
    Total (printWrittenMemoryDump cpu) := by
  unfold printWrittenMemoryDump
  refine (total_emit _).bind fun _ => ?_
  split
  · exact total_emit _
  · obtain ⟨marked, hmarked, hlen, -⟩ := markRanges_fresh
      "recorded memory write exceeds simulated RAM bounds" hsize hb
    have hmarks : markRanges "recorded memory write exceeds simulated RAM bounds" cpu.memorySize
        (cpu.memoryWrites.map fun write => ⟨write.address, write.byteCount⟩)
        (List.replicate cpu.memorySize false) = pure marked := hmarked
    rw [hmarks]
    change Total (printWrittenRanges cpu marked (marked.length + 1) 0)
    exact printWrittenRanges_total hsize hlen _ (Nat.zero_le _) (by omega)

theorem printLatch_total (name : String) (valid : Bool) (pc instruction : Word)
    (showPrediction predictedTaken : Bool) (predictedNextPc : Word) :
    Total (printLatch name valid pc instruction showPrediction predictedTaken predictedNextPc) := by
  unfold printLatch
  refine (total_emit _).bind fun _ => ?_
  split
  · exact total_emit _
  · exact (total_emit _).bind fun _ => (total_emit _).bind fun _ => total_emit _

theorem printPipelineTrace_total (cpu : CPU) (pipeline : PipelineRegisters) :
    Total (printPipelineTrace cpu pipeline) :=
  (total_emit _).bind fun _ => (printLatch_total _ _ _ _ _ _ _).bind fun _ =>
    (printLatch_total _ _ _ _ _ _ _).bind fun _ => (printLatch_total _ _ _ _ _ _ _).bind fun _ =>
      printLatch_total _ _ _ _ _ _ _

/-! ## The export -/

theorem printHex32_total (value : Word) : Total (printHex32 value) := total_emit _

theorem printRegister_total (cpu : CPU) (reg : ℕ) : Total (printRegister cpu reg) :=
  (total_emit _).bind fun _ => (printHex32_total _).bind fun _ => total_emit _

theorem printByte_ends (cpu : CPU) (range : MemoryDumpRange) (offset : ℕ) :
    Ends (printByte cpu range offset) :=
  (total_emit _).ends.bind fun _ => (ends_ofExcept _).bind fun _ => (total_emit _).ends

/-- A range of an export may be out of memory: it throws, but it ends. -/
theorem printRange_ends (cpu : CPU) (ranges : List MemoryDumpRange) (index : ℕ) :
    Ends (printRange cpu ranges index) :=
  (total_emit _).ends.bind fun _ => (printHex32_total _).ends.bind fun _ =>
    (total_emit _).ends.bind fun _ =>
      (ends_forM fun _ _ => printByte_ends _ _ _).bind fun _ => (total_emit _).ends

theorem normalizeMemoryRanges_ends (hsize : cpu.memorySize < 2 ^ 32)
    (requested : List MemoryDumpRange) : Ends (call (normalizeMemoryRanges cpu requested)) := by
  by_cases hb : RangesInBounds cpu.memorySize (exportedRanges cpu requested)
  · obtain ⟨ranges, hranges, -⟩ := normalizeMemoryRanges_eq requested hsize hb
    rw [hranges]
    exact fun o => ⟨(.ok ranges, o), rfl⟩
  · rw [normalizeMemoryRanges_throws requested hsize hb]
    exact fun o => ⟨(.error _, o), rfl⟩

/-- **An export ends**, with or without an exception. -/
theorem printArchitecturalStateJson_ends (hsize : cpu.memorySize < 2 ^ 32)
    (requested : List MemoryDumpRange) : Ends (printArchitecturalStateJson cpu requested) := by
  refine (normalizeMemoryRanges_ends hsize requested).bind fun ranges => ?_
  refine (total_emit _).ends.bind fun _ => (printHex32_total _).ends.bind fun _ => ?_
  refine (total_emit _).ends.bind fun _ => (total_emit _).ends.bind fun _ => ?_
  refine (total_forM fun _ _ => printRegister_total _ _).ends.bind fun _ => ?_
  refine (total_emit _).ends.bind fun _ => (total_emit _).ends.bind fun _ => ?_
  exact (ends_forM fun _ _ => printRange_ends _ _ _).bind fun _ => (total_emit _).ends

end

/-! ## The standard output -/

section

variable {α : Type} {p : PrintM α} {a : α} {c : Prop} {cpu : CPU}

theorem onCout_run_some {w : World} {r : Except OutOfRange α} {o : OStream}
    (h : p.run.run w.cout = some (r, o)) : (onCout p).run.run w =
      some (r.mapError fun e => ⟨e.what⟩, { w with cout := o }) := by
  change (p.run.run w.cout).map _ = _
  rw [h]
  rfl

theorem returns_onCout_iff {w w' : World} :
    Returns (onCout p) w a w' ↔ ∃ o, Returns p w.cout a o ∧ w' = { w with cout := o } := by
  constructor
  · intro h
    rcases outcome_cases p w.cout with hp | ⟨e, o, hp⟩ | ⟨a', o, hp⟩
    · change (p.run.run w.cout).map _ = _ at h
      rw [hp] at h
      cases h
    · rw [Returns, onCout_run_some hp] at h
      cases h
    · rw [Returns, onCout_run_some hp] at h
      cases h
      exact ⟨o, hp, rfl⟩
  · rintro ⟨o, hp, rfl⟩
    exact onCout_run_some hp

theorem onCout_yields (h : Yields p a c) : Yields (onCout p) a c := by
  intro w
  rw [← h w.cout]
  constructor
  · rintro ⟨w', hw⟩
    obtain ⟨o, hp, -⟩ := returns_onCout_iff.mp hw
    exact ⟨o, hp⟩
  · rintro ⟨o, hp⟩
    exact ⟨_, returns_onCout_iff.mpr ⟨o, hp, rfl⟩⟩

theorem onCout_total (h : Total p) : Total (onCout p) := by
  intro w
  obtain ⟨a, o, hp⟩ := h w.cout
  exact ⟨a, _, returns_onCout_iff.mpr ⟨o, hp, rfl⟩⟩

/-- Printing on the standard output ends if the printing does. -/
theorem onCout_ends (h : Ends p) : Ends (onCout p) := by
  intro w
  obtain ⟨⟨r, o⟩, hp⟩ := h w.cout
  exact ⟨_, onCout_run_some hp⟩

theorem print_total (f : OStream → OStream) : Total (print f) := onCout_total (total_emit f)

theorem printUsage_total (executable : Path) : Total (printUsage executable) := by
  unfold printUsage
  iterate 15 refine (print_total _).bind fun _ => ?_
  exact (print_total _).bind fun _ => print_total _

theorem printDemoInstructions_total (instructions : List DemoInstruction) (address : Word) :
    Total (printDemoInstructions instructions address) := by
  induction instructions generalizing address with
  | nil => exact total_pure _
  | cons instruction instructions ih => exact (print_total _).bind fun _ => ih _

theorem printRunOptions_total (options : MainOptions) : Total (printRunOptions options) :=
  (print_total _).bind fun _ => (print_total _).bind fun _ => (print_total _).bind fun _ =>
    (print_total _).bind fun _ => print_total _

theorem printRegisters_total (cpu : CPU) : Total (printRegisters cpu) :=
  (print_total _).bind fun _ => total_forM fun _ _ => print_total _

theorem printStats_total (env : Environment) (cpu : CPU) : Total (printStats env cpu) := by
  unfold printStats
  iterate 8 refine (print_total _).bind fun _ => ?_
  exact (print_total _).bind fun _ => print_total _

theorem onCout_diverges (h : Diverges p c) : Diverges (onCout p) c := by
  intro w
  rw [← h w.cout]
  change (p.run.run w.cout).map _ = none ↔ _
  exact Option.map_eq_none_iff

/-! ## Files -/

section

variable {env : Environment} {path : Path} {q : PrintM Unit} {good : Bool}

/-- Writing to a file returns if writing to a fresh stream does. -/
theorem toFile_yields : Yields (toFile env path q) good
    (∃ o, Returns q {} () o ∧ (env.stores path o.text).1 = good) := by
  intro w
  rcases outcome_cases q {} with h | ⟨e, o, h⟩ | ⟨a, o, h⟩
  · refine iff_of_false ?_ ?_
    · rintro ⟨w', hw⟩
      change (q.run.run {}).map _ = _ at hw
      rw [h] at hw
      cases hw
    · rintro ⟨o, ho, -⟩
      rw [Returns, h] at ho
      cases ho
  · refine iff_of_false ?_ ?_
    · rintro ⟨w', hw⟩
      change (q.run.run {}).map _ = _ at hw
      rw [show q.run.run {} = _ from h] at hw
      cases hw
    · rintro ⟨o', ho, -⟩
      rw [Returns, show q.run.run {} = _ from h] at ho
      cases ho
  · have hrun : Returns (toFile env path q) w (env.stores path o.text).1
        { w with files := Function.update w.files path (some (env.stores path o.text).2) } := by
      change (q.run.run {}).map _ = _
      rw [show q.run.run {} = _ from h]
      rfl
    constructor
    · rintro ⟨w', hw⟩
      exact ⟨o, h, (hrun.unique hw).1⟩
    · rintro ⟨o', ho, hgood⟩
      obtain ⟨-, rfl⟩ := h.unique ho
      rw [hgood] at hrun
      exact ⟨_, hrun⟩

/-- So does printing into a file. -/
theorem toFile_ends (h : Ends q) : Ends (toFile env path q) := by
  intro w
  obtain ⟨x, hx⟩ := h {}
  change ∃ r, (q.run.run {}).map _ = _
  rw [hx]
  exact ⟨_, rfl⟩

/-- The text that has been written is in the file. -/
theorem returns_toFile {w w' : World} (h : Returns (toFile env path q) w good w') :
    ∃ o, Returns q {} () o ∧ good = (env.stores path o.text).1 ∧
      w'.files = Function.update w.files path (some (env.stores path o.text).2) := by
  rcases outcome_cases q {} with hq | ⟨e, o, hq⟩ | ⟨a, o, hq⟩
  · change (q.run.run {}).map _ = _ at h
    rw [hq] at h
    cases h
  · change (q.run.run {}).map _ = _ at h
    rw [show q.run.run {} = _ from hq] at h
    cases h
  · change (q.run.run {}).map _ = _ at h
    rw [show q.run.run {} = _ from hq] at h
    cases h
    exact ⟨o, hq, rfl, rfl⟩

/-- No other file is touched. -/
theorem toFile_keeps {other : Path} (hne : other ≠ path) :
    Keeps (fun w : World => w.files other) (toFile env path q) := by
  intro w r w' h
  change (q.run.run {}).map _ = _ at h
  obtain ⟨x, -, hx⟩ := Option.map_eq_some_iff.mp h
  cases hx
  exact Function.update_of_ne hne _ _

/-- The standard output is not a file. -/
theorem keeps_onCout {other : Path} (p : PrintM α) :
    Keeps (fun w : World => w.files other) (onCout p) := by
  intro w r w' h
  change (p.run.run w.cout).map _ = _ at h
  obtain ⟨x, -, hx⟩ := Option.map_eq_some_iff.mp h
  cases hx
  rfl

end

end

end RvPipeline
