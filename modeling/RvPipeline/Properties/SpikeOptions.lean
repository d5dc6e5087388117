import RvPipeline.Model.SpikeLog
import RvPipeline.Properties.CommandLine
import RvPipeline.Properties.SpikeAdapter

/-!
# The command line of the adapter

Which command lines does the Spike state adapter accept, and what do they set? The grammar
is that of the simulator's options, with stricter ranges and three required options.

Results:

* `parseU32_ok_iff`: a number is accepted exactly if it is a numeral of 32 bits.
* `parse_options_accepts`: the accepted command lines, and their options.
-/

namespace RvPipeline

open Isa (Word)
open Text State

/-! ## Values -/

section

variable {text : List Char} {name : String}

/-- **Numbers** are accepted exactly if they are numerals of 32 bits. -/
theorem parseU32_ok_iff {v : Word} : parseU32 text name = .ok v ↔ Numeral 0 text v.toNat := by
  rw [← stoull_eq_ok_iff (Nat.zero_le _)]
  unfold parseU32
  constructor
  · intro h
    split at h
    · next value parsed hread =>
      rcases ite_cases h with ⟨-, h⟩ | ⟨hfits, h⟩
      · cases h
      · obtain ⟨hparsed, hvalue⟩ := not_or.mp hfits
        cases h
        rw [hread, exists_word hvalue, not_not.mp hparsed]
    · cases h
  · intro h
    have hfits : ¬ (text.length ≠ text.length ∨ v.toNat > uint32Max) :=
      not_or.mpr ⟨not_not.mpr rfl, toNat_le_uint32Max v⟩
    rw [h]
    simp only [if_neg hfits, BitVec.ofNat_toNat, BitVec.setWidth_eq]

theorem aligned_iff (range : MemoryDumpRange) :
    range.Aligned ↔ ¬ (range.startAddress % 4 ≠ 0 ∨ range.byteCount = 0 ∨
      range.byteCount % 4 ≠ 0) := by
  have hmod : ∀ w : Word, w % 4 = 0 ↔ w.toNat % 4 = 0 := by
    intro w
    rw [← BitVec.toNat_inj, BitVec.toNat_umod]
    rfl
  have hzero : range.byteCount = 0 ↔ range.byteCount.toNat = 0 := by
    rw [← BitVec.toNat_inj]
    rfl
  unfold MemoryDumpRange.Aligned
  rw [ne_eq, ne_eq, hmod, hmod, hzero]
  omega

/-- **Ranges** are accepted exactly if they consist of whole words. -/
theorem parseMemoryRange_ok_iff {range : MemoryDumpRange} :
    parseMemoryRange text = .ok range ↔ RangeText text range ∧ range.Aligned := by
  constructor
  · intro h
    unfold parseMemoryRange at h
    split at h
    · cases h
    · next separator hseparator =>
      obtain ⟨start, hstart, h⟩ := bind_eq_ok_iff.mp h
      obtain ⟨length, hlength, h⟩ := bind_eq_ok_iff.mp h
      rcases ite_cases h with ⟨-, h⟩ | ⟨haligned, h⟩
      · cases h
      · cases h
        refine ⟨?_, (aligned_iff _).mpr haligned⟩
        rw [eq_of_idxOf? hseparator]
        exact .mk (parseU32_ok_iff.mp hstart) (parseU32_ok_iff.mp hlength)
  · rintro ⟨hrange, haligned⟩
    cases hrange with
    | mk hstart hlength =>
      unfold parseMemoryRange
      rw [idxOf?_append_cons (colon_notMem (by omega) hstart)]
      simp only [List.take_left, drop_length_succ]
      refine bind_eq_ok_iff.mpr ⟨_, parseU32_ok_iff.mpr hstart, ?_⟩
      exact bind_eq_ok_iff.mpr ⟨_, parseU32_ok_iff.mpr hlength, if_neg ((aligned_iff _).mp haligned)⟩

end

/-! ## Settings -/

/-- What one argument of the adapter sets. -/
inductive SpikeSetting
  | input (path : Path)
  | output (path : Path)
  | haltPc (pc : Word)
  | memoryRange (range : MemoryDumpRange)

/-- The grammar of arguments. -/
inductive SpikeMeans : List Char → SpikeSetting → Prop
  | input (path : Path) : SpikeMeans ("--input=".toList ++ path) (.input path)
  | output (path : Path) : SpikeMeans ("--output=".toList ++ path) (.output path)
  | haltPc {text : List Char} {pc : Word} (h : Numeral 0 text pc.toNat) :
      SpikeMeans ("--halt-pc=".toList ++ text) (.haltPc pc)
  | memoryRange {text : List Char} {range : MemoryDumpRange} (h : RangeText text range)
      (haligned : range.Aligned) :
      SpikeMeans ("--memory-range=".toList ++ text) (.memoryRange range)

namespace SpikeSetting

def input? : SpikeSetting → Option Path
  | .input path => some path
  | _ => none

def output? : SpikeSetting → Option Path
  | .output path => some path
  | _ => none

def haltPc? : SpikeSetting → Option Word
  | .haltPc pc => some pc
  | _ => none

def memoryRange? : SpikeSetting → Option MemoryDumpRange
  | .memoryRange range => some range
  | _ => none

/-- What a setting does to options. -/
def apply (options : SpikeOptions) : SpikeSetting → SpikeOptions
  | .input path => { options with inputPath := path }
  | .output path => { options with outputPath := path }
  | .haltPc pc => { options with haltPc := pc, hasHaltPc := true }
  | .memoryRange range => { options with memoryRanges := options.memoryRanges ++ [range] }

end SpikeSetting

/-- The options that a list of settings stands for. -/
def spikeOptionsOf (settings : List SpikeSetting) : SpikeOptions where
  haltPc := lastOf SpikeSetting.haltPc? 0 settings
  memoryRanges := settings.filterMap SpikeSetting.memoryRange?
  inputPath := lastOf SpikeSetting.input? [] settings
  outputPath := lastOf SpikeSetting.output? [] settings
  hasHaltPc := settings.any (·.haltPc?.isSome)

/-- Settings are made one after the other. -/
theorem spikeOptionsOf_eq (settings : List SpikeSetting) :
    settings.foldl SpikeSetting.apply {} = spikeOptionsOf settings := by
  induction settings using List.reverseRecOn with
  | nil => rfl
  | append_singleton settings s ih =>
    rw [List.foldl_append, ih]
    unfold spikeOptionsOf
    simp only [lastOf_snoc, List.filterMap_append, List.any_append, List.foldl_cons, List.foldl_nil]
    cases s <;> simp [SpikeSetting.apply, SpikeSetting.input?, SpikeSetting.output?,
      SpikeSetting.haltPc?, SpikeSetting.memoryRange?]

/-! ## Arguments -/

section

variable {options out : SpikeOptions} {arg : List Char}

/-- **One argument** is accepted exactly if it means a setting. -/
theorem parseOption_ok_iff :
    parseOption options arg = .ok out ↔ ∃ s, SpikeMeans arg s ∧ out = s.apply options := by
  constructor
  · intro h
    unfold parseOption at h
    rcases ite_cases h with ⟨hp, h⟩ | ⟨-, h⟩
    · obtain ⟨path, rfl⟩ := startsWith_iff.mp hp
      exact ⟨_, .input path, (Except.ok.inj h).symm⟩
    rcases ite_cases h with ⟨hp, h⟩ | ⟨-, h⟩
    · obtain ⟨path, rfl⟩ := startsWith_iff.mp hp
      exact ⟨_, .output path, (Except.ok.inj h).symm⟩
    rcases ite_cases h with ⟨hp, h⟩ | ⟨-, h⟩
    · obtain ⟨text, rfl⟩ := startsWith_iff.mp hp
      obtain ⟨pc, hpc, h⟩ := bind_eq_ok_iff.mp h
      exact ⟨_, .haltPc (parseU32_ok_iff.mp hpc), (Except.ok.inj h).symm⟩
    rcases ite_cases h with ⟨hp, h⟩ | ⟨-, h⟩
    · obtain ⟨text, rfl⟩ := startsWith_iff.mp hp
      obtain ⟨range, hrange, h⟩ := bind_eq_ok_iff.mp h
      obtain ⟨htext, haligned⟩ := parseMemoryRange_ok_iff.mp hrange
      exact ⟨_, .memoryRange htext haligned, (Except.ok.inj h).symm⟩
    cases h
  · rintro ⟨s, hs, rfl⟩
    cases hs with
    | input path => rfl
    | output path => rfl
    | haltPc h => exact bind_eq_ok_iff.mpr ⟨_, parseU32_ok_iff.mpr h, rfl⟩
    | memoryRange h haligned =>
      exact bind_eq_ok_iff.mpr ⟨_, parseMemoryRange_ok_iff.mpr ⟨h, haligned⟩, rfl⟩

/-- **All arguments** are accepted exactly if they mean settings. -/
theorem parseOptionArgs_ok_iff {args : List (List Char)} :
    args.foldlM parseOption {} = .ok out ↔
      ∃ settings, List.Forall₂ SpikeMeans args settings ∧ out = spikeOptionsOf settings := by
  have hone : ∀ (options : SpikeOptions) (arg : List Char) (out : SpikeOptions),
      parseOption options arg = .ok out ↔ ∃ s, SpikeMeans arg s ∧ out = s.apply options :=
    fun _ _ _ => parseOption_ok_iff
  rw [foldlM_ok_iff_forall₂ hone]
  simp only [spikeOptionsOf_eq]

/-- What the check at the end of `parse_options` asks for. -/
def SpikeOptions.Given (options : SpikeOptions) : Prop :=
  options.inputPath ≠ [] ∧ options.outputPath ≠ [] ∧ options.hasHaltPc = true

theorem given_iff (options : SpikeOptions) : options.Given ↔
    ¬ (options.inputPath = [] ∨ options.outputPath = [] ∨ options.hasHaltPc = false) := by
  rw [SpikeOptions.Given, not_or, not_or, Bool.not_eq_false]

/-- **The command lines that the adapter accepts, and their options**: every argument means a
    setting, and input, output and halt address are given. -/
theorem parse_options_accepts {args : List (List Char)} :
    parseOptions args = .ok options ↔
      ∃ settings, List.Forall₂ SpikeMeans args settings ∧ options = spikeOptionsOf settings ∧
        options.Given := by
  unfold parseOptions
  rw [bind_eq_ok_iff]
  constructor
  · rintro ⟨out, hout, h⟩
    obtain ⟨settings, hmeans, rfl⟩ := parseOptionArgs_ok_iff.mp hout
    rcases ite_cases h with ⟨-, h⟩ | ⟨hgiven, h⟩
    · cases h
    · cases h
      exact ⟨settings, hmeans, rfl, (given_iff _).mpr hgiven⟩
  · rintro ⟨settings, hmeans, rfl, hgiven⟩
    exact ⟨_, parseOptionArgs_ok_iff.mpr ⟨settings, hmeans, rfl⟩, if_neg ((given_iff _).mp hgiven)⟩

end

end RvPipeline
