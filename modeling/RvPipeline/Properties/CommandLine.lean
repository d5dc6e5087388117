import Mathlib.Data.List.Forall2
import Mathlib.Data.List.Induction
import RvPipeline.Model.CommandLine
import RvPipeline.State.Interleave

/-!
# Command lines

Which command lines does the simulator accept, and what do they set?

An argument is a setting, written down by the grammar `Means`. The options are a
function of the list of settings, field by field: a value given twice counts as last
given, ranges and expectations are collected.

Results:

* `parseUnsigned_ok_iff`: a number is accepted exactly if it is a numeral.
* `parseArg_ok_iff`: one argument is accepted exactly if it means a setting.
* `parse_cli_accepts`: the accepted command lines, and their options.
* `parse_cli_interleaves`: options of different kinds commute.
-/

namespace RvPipeline

open Isa (Word)
open Text State

/-! ## Settings -/

/-- What one argument sets. -/
inductive Setting
  | help
  | trace
  | traceStart (n : ℕ)
  | traceLimit (n : ℕ)
  | dumpRegs
  | dumpWrittenMemory
  | dumpState (path : List Char)
  | stateMemory (range : MemoryDumpRange)
  | dumpMemory (range : MemoryDumpRange)
  | expectMemory (expectation : MemoryExpectation)
  | maxCycles (n : ℕ)
  | branchPredictor (type : BranchPredictorType)
  | loadAddress (address : Word)
  | memorySize (size : Word)
  | retireCount (n : ℕ)
  | program (path : List Char)

/-- Two numerals with a colon between them, both of 32 bits. -/
inductive RangeText : List Char → MemoryDumpRange → Prop
  | mk {first second : List Char} {start length : Word} (hstart : Numeral 0 first start.toNat)
      (hlength : Numeral 0 second length.toNat) :
      RangeText (first ++ ':' :: second) ⟨start, length⟩

/-- The names of the predictors. -/
def predictorName : BranchPredictorType → String
  | .alwaysNotTaken => "not-taken"
  | .alwaysTaken => "taken"
  | .twoBitSaturating => "two-bit"

/-- The grammar of arguments. -/
inductive Means : List Char → Setting → Prop
  | help : Means "--help".toList .help
  | shortHelp : Means "-h".toList .help
  | trace : Means "--trace".toList .trace
  | traceStart {text : List Char} {n : ℕ} (h : Numeral 10 text n) :
      Means ("--trace-start=".toList ++ text) (.traceStart n)
  | traceLimit {text : List Char} {n : ℕ} (h : Numeral 10 text n) :
      Means ("--trace-limit=".toList ++ text) (.traceLimit n)
  | dumpRegs : Means "--dump-regs".toList .dumpRegs
  | dumpWrittenMemory : Means "--dump-written-memory".toList .dumpWrittenMemory
  | dumpState {path : List Char} (h : path ≠ []) :
      Means ("--dump-state=".toList ++ path) (.dumpState path)
  | stateMemory {text : List Char} {range : MemoryDumpRange} (h : RangeText text range) :
      Means ("--state-memory=".toList ++ text) (.stateMemory range)
  | dumpMemory {text : List Char} {range : MemoryDumpRange} (h : RangeText text range) :
      Means ("--dump-memory=".toList ++ text) (.dumpMemory range)
  | expectMemory {text : List Char} {range : MemoryDumpRange} (h : RangeText text range)
      (hword : range.startAddress.toNat ≤ 2 ^ 32 - 4) :
      Means ("--expect-memory=".toList ++ text)
        (.expectMemory ⟨range.startAddress, range.byteCount⟩)
  | maxCycles {text : List Char} {n : ℕ} (h : Numeral 10 text n) :
      Means ("--max-cycles=".toList ++ text) (.maxCycles n)
  | branchPredictor (type : BranchPredictorType) :
      Means ("--branch-predictor=".toList ++ (predictorName type).toList) (.branchPredictor type)
  | loadAddress {text : List Char} {address : Word} (h : Numeral 0 text address.toNat) :
      Means ("--load-address=".toList ++ text) (.loadAddress address)
  | memorySize {text : List Char} {size : Word} (h : Numeral 0 text size.toNat) (hpos : size ≠ 0) :
      Means ("--memory-size=".toList ++ text) (.memorySize size)
  | retireCount {text : List Char} {n : ℕ} (h : Numeral 10 text n) :
      Means ("--retire-count=".toList ++ text) (.retireCount n)
  | program {path : List Char} (h : path.head? ≠ some '-') : Means path (.program path)

namespace Setting

def traceStart? : Setting → Option ℕ
  | .traceStart n => some n
  | _ => none

def traceLimit? : Setting → Option ℕ
  | .traceLimit n => some n
  | _ => none

def dumpState? : Setting → Option (List Char)
  | .dumpState path => some path
  | _ => none

def stateMemory? : Setting → Option MemoryDumpRange
  | .stateMemory range => some range
  | _ => none

def dumpMemory? : Setting → Option MemoryDumpRange
  | .dumpMemory range => some range
  | _ => none

def expectMemory? : Setting → Option MemoryExpectation
  | .expectMemory expectation => some expectation
  | _ => none

def maxCycles? : Setting → Option ℕ
  | .maxCycles n => some n
  | _ => none

def branchPredictor? : Setting → Option BranchPredictorType
  | .branchPredictor type => some type
  | _ => none

def loadAddress? : Setting → Option Word
  | .loadAddress address => some address
  | _ => none

def memorySize? : Setting → Option Word
  | .memorySize size => some size
  | _ => none

def retireCount? : Setting → Option ℕ
  | .retireCount n => some n
  | _ => none

def program? : Setting → Option (List Char)
  | .program path => some path
  | _ => none

def isHelp : Setting → Bool
  | .help => true
  | _ => false

/-- A window for the trace switches it on. -/
def isTrace : Setting → Bool
  | .trace | .traceStart _ | .traceLimit _ => true
  | _ => false

def isDumpRegs : Setting → Bool
  | .dumpRegs => true
  | _ => false

def isDumpWrittenMemory : Setting → Bool
  | .dumpWrittenMemory => true
  | _ => false

end Setting

/-- The options that a list of settings stands for. -/
def optionsOf (settings : List Setting) : MainOptions where
  maxCycles := lastOf Setting.maxCycles? 100 settings
  retireCount := lastOf Setting.retireCount? 0 settings
  hasRetireCount := settings.any (·.retireCount?.isSome)
  config := { branchPredictorType := lastOf Setting.branchPredictor? .twoBitSaturating settings }
  programPath := lastOf Setting.program? [] settings
  loadAddress := lastOf Setting.loadAddress? 0 settings
  memorySize := lastOf Setting.memorySize? 0x10000 settings
  dumpRegs := settings.any Setting.isDumpRegs
  dumpMemory := settings.any (·.dumpMemory?.isSome)
  dumpWrittenMemory := settings.any Setting.isDumpWrittenMemory
  dumpStatePath := lastOf Setting.dumpState? [] settings
  stateMemoryRanges := settings.filterMap Setting.stateMemory?
  dumpMemoryStart := (lastOf Setting.dumpMemory? {} settings).startAddress
  dumpMemoryLength := (lastOf Setting.dumpMemory? {} settings).byteCount
  memoryExpectations := settings.filterMap Setting.expectMemory?
  trace := settings.any Setting.isTrace
  traceStart := lastOf Setting.traceStart? 0 settings
  traceLimit := lastOf Setting.traceLimit? 0 settings
  hasTraceLimit := settings.any (·.traceLimit?.isSome)
  showHelp := settings.any Setting.isHelp

/-- At most one program is named. An empty path in front of it goes unnoticed. -/
def OneProgram (settings : List Setting) : Prop :=
  ∀ path ∈ (settings.filterMap Setting.program?).dropLast, path = []

/-- What a setting does to options. -/
def Setting.apply (options : MainOptions) : Setting → MainOptions
  | .help => { options with showHelp := true }
  | .trace => { options with trace := true }
  | .traceStart n => { options with traceStart := n, trace := true }
  | .traceLimit n => { options with traceLimit := n, hasTraceLimit := true, trace := true }
  | .dumpRegs => { options with dumpRegs := true }
  | .dumpWrittenMemory => { options with dumpWrittenMemory := true }
  | .dumpState path => { options with dumpStatePath := path }
  | .stateMemory range =>
    { options with stateMemoryRanges := options.stateMemoryRanges ++ [range] }
  | .dumpMemory range =>
    { options with
      dumpMemory := true
      dumpMemoryStart := range.startAddress
      dumpMemoryLength := range.byteCount }
  | .expectMemory expectation =>
    { options with memoryExpectations := options.memoryExpectations ++ [expectation] }
  | .maxCycles n => { options with maxCycles := n }
  | .branchPredictor type => { options with config.branchPredictorType := type }
  | .loadAddress address => { options with loadAddress := address }
  | .memorySize size => { options with memorySize := size }
  | .retireCount n => { options with retireCount := n, hasRetireCount := true }
  | .program path => { options with programPath := path }

/-! ## Values -/

section

variable {text : List Char} {name : String} {n v : ℕ}

/-- **Numbers** are accepted exactly if they are numerals. -/
theorem parseUnsigned_ok_iff {base : ℕ} (hbase : base ≤ 36) :
    parseUnsigned base text name = .ok v ↔ Numeral base text v := by
  rw [← stoull_eq_ok_iff hbase]
  unfold parseUnsigned
  split
  · next value parsed hread =>
    rw [hread]
    split_ifs with hparsed
    · constructor
      · intro h
        cases h
      · intro h
        exact absurd (Prod.mk.inj (Except.ok.inj h)).2 hparsed
    · rw [not_not] at hparsed
      rw [hparsed]
      constructor
      · intro h
        rw [Except.ok.inj h]
      · intro h
        rw [(Prod.mk.inj (Except.ok.inj h)).1]
  · next e hread =>
    rw [hread]
    constructor <;> intro h <;> cases h

theorem parseU64_ok_iff : parseU64 text name = .ok v ↔ Numeral 10 text v :=
  parseUnsigned_ok_iff (by omega)

theorem parseU64Auto_ok_iff : parseU64Auto text name = .ok v ↔ Numeral 0 text v :=
  parseUnsigned_ok_iff (by omega)

end

theorem idxOf?_append_cons {a : Char} {l l' : List Char} (h : a ∉ l) :
    (l ++ a :: l').idxOf? a = some l.length := by
  induction l with
  | nil => simp [List.idxOf?_cons]
  | cons b l ih =>
    obtain ⟨hb, hl⟩ := not_or.mp (fun h' => h (List.mem_cons.mpr h'))
    rw [List.cons_append, List.idxOf?_cons, ih hl, beq_false_of_ne (Ne.symm hb)]
    rfl

/-- A text is cut in two at its first colon. -/
theorem eq_of_idxOf? {value : List Char} {separator : ℕ}
    (h : value.idxOf? ':' = some separator) :
    value = value.take separator ++ ':' :: value.drop (separator + 1) := by
  obtain ⟨hlt, hcolon, -⟩ := List.idxOf?_eq_some_iff.mp h
  rw [← hcolon, ← List.drop_eq_getElem_cons hlt, List.take_append_drop]

theorem drop_length_succ (first second : List Char) :
    (first ++ ':' :: second).drop (first.length + 1) = second := by
  rw [← List.drop_drop, List.drop_left]
  rfl

theorem colon_notMem {base : ℕ} {text : List Char} {v : ℕ} (hbase : base ≤ 36)
    (h : Numeral base text v) : ':' ∉ text := by
  intro hc
  rcases h.chars hbase _ hc with hc | hc | hc | hc <;> exact absurd hc (by decide)

/-- **Pairs** are accepted exactly if they are numerals on both sides of a colon. -/
theorem parsePair_ok_iff {format a b : String} {value : List Char} {x y : ℕ} :
    parsePair format a b value = .ok (x, y) ↔
      ∃ first second, value = first ++ ':' :: second ∧ Numeral 0 first x ∧ Numeral 0 second y := by
  constructor
  · intro h
    unfold parsePair at h
    split at h
    · cases h
    · next separator hseparator =>
      obtain ⟨first, hfirst, h⟩ := State.bind_eq_ok_iff.mp h
      obtain ⟨second, hsecond, h⟩ := State.bind_eq_ok_iff.mp h
      cases h
      exact ⟨_, _, eq_of_idxOf? hseparator, parseU64Auto_ok_iff.mp hfirst,
        parseU64Auto_ok_iff.mp hsecond⟩
  · rintro ⟨first, second, rfl, hfirst, hsecond⟩
    unfold parsePair
    rw [idxOf?_append_cons (colon_notMem (by omega) hfirst)]
    simp only [List.take_left, drop_length_succ, parseU64Auto_ok_iff.mpr hfirst,
      parseU64Auto_ok_iff.mpr hsecond]
    rfl

/-- A number that fits into 32 bits is the value of a word. -/
theorem exists_word {n : ℕ} (h : ¬ n > uint32Max) : (BitVec.ofNat 32 n).toNat = n := by
  rw [BitVec.toNat_ofNat]
  unfold uint32Max at h
  exact Nat.mod_eq_of_lt (by omega)

theorem toNat_le_uint32Max (w : Word) : ¬ w.toNat > uint32Max := by
  have h := w.isLt
  unfold uint32Max
  omega

/-- A pair of 32-bit values is the text of a range. -/
theorem rangeText_of_pair {format a b : String} {value : List Char} {x y : ℕ}
    (h : parsePair format a b value = .ok (x, y)) (hx : ¬ x > uint32Max) (hy : ¬ y > uint32Max) :
    RangeText value ⟨BitVec.ofNat 32 x, BitVec.ofNat 32 y⟩ := by
  obtain ⟨first, second, rfl, hfirst, hsecond⟩ := parsePair_ok_iff.mp h
  rw [← exists_word hx] at hfirst
  rw [← exists_word hy] at hsecond
  exact .mk hfirst hsecond

theorem RangeText.pair {value : List Char} {range : MemoryDumpRange} (h : RangeText value range)
    (format a b : String) : parsePair format a b value =
      .ok (range.startAddress.toNat, range.byteCount.toNat) := by
  cases h with
  | mk hstart hlength => exact parsePair_ok_iff.mpr ⟨_, _, rfl, hstart, hlength⟩

/-- A parser that checks a pair of values for 32 bits accepts the texts of ranges. -/
theorem pair_bind_ok_iff {α : Type} {format a b what : String} {value : List Char} {out : α}
    {f : MemoryDumpRange → α} :
    (parsePair format a b value >>= fun values =>
        if values.1 > uint32Max ∨ values.2 > uint32Max then throw ⟨what⟩
        else return f ⟨BitVec.ofNat 32 values.1, BitVec.ofNat 32 values.2⟩) = .ok out ↔
      ∃ range, RangeText value range ∧ out = f range := by
  rw [State.bind_eq_ok_iff]
  constructor
  · rintro ⟨⟨x, y⟩, hpair, h⟩
    split at h
    · cases h
    · next hfits =>
      obtain ⟨hx, hy⟩ := not_or.mp hfits
      exact ⟨_, rangeText_of_pair hpair hx hy, (Except.ok.inj h).symm⟩
  · rintro ⟨range, hrange, rfl⟩
    refine ⟨_, hrange.pair _ _ _, ?_⟩
    rw [if_neg (not_or.mpr ⟨toNat_le_uint32Max _, toNat_le_uint32Max _⟩), BitVec.ofNat_toNat,
      BitVec.ofNat_toNat]
    rfl

theorem parseStateMemoryRange_ok_iff {value : List Char} {range : MemoryDumpRange} :
    parseStateMemoryRange value = .ok range ↔ RangeText value range := by
  refine (pair_bind_ok_iff (f := fun range => range)).trans ?_
  simp only [exists_eq_right']

theorem parseMemoryDumpRange_ok_iff {value : List Char} {options out : MainOptions} :
    parseMemoryDumpRange value options = .ok out ↔
      ∃ range, RangeText value range ∧ out = Setting.apply options (.dumpMemory range) :=
  pair_bind_ok_iff (f := fun range => Setting.apply options (.dumpMemory range))

theorem parseMemoryExpectation_ok_iff {value : List Char} {options out : MainOptions} :
    parseMemoryExpectation value options = .ok out ↔
      ∃ range, (RangeText value range ∧ range.startAddress.toNat ≤ 2 ^ 32 - 4) ∧
        out = Setting.apply options (.expectMemory ⟨range.startAddress, range.byteCount⟩) := by
  unfold parseMemoryExpectation
  rw [State.bind_eq_ok_iff]
  constructor
  · rintro ⟨⟨x, y⟩, hpair, h⟩
    split at h
    · cases h
    · next hfits =>
      obtain ⟨hx, hy⟩ := not_or.mp hfits
      have hx' : ¬ x > uint32Max := by omega
      refine ⟨_, ⟨rangeText_of_pair hpair hx' hy, ?_⟩, (Except.ok.inj h).symm⟩
      rw [exists_word hx']
      unfold uint32Max at hx
      omega
  · rintro ⟨range, ⟨hrange, hle⟩, rfl⟩
    refine ⟨_, hrange.pair _ _ _, ?_⟩
    have hx : ¬ range.startAddress.toNat > uint32Max - 3 := by
      unfold uint32Max
      omega
    rw [if_neg (not_or.mpr ⟨hx, toNat_le_uint32Max _⟩), BitVec.ofNat_toNat, BitVec.ofNat_toNat]
    rfl

theorem parseBranchPredictorType_ok_iff {value : List Char} {type : BranchPredictorType} :
    parseBranchPredictorType value = .ok type ↔ value = (predictorName type).toList := by
  constructor
  · intro h
    unfold parseBranchPredictorType at h
    split_ifs at h with h₁ h₂ h₃
    · cases h
      exact h₁
    · cases h
      exact h₂
    · cases h
      exact h₃
  · rintro rfl
    cases type <;> rfl

/-! ## One argument -/

theorem startsWith_iff {p : String} {arg : List Char} :
    startsWith p arg ↔ ∃ text, arg = p.toList ++ text := by
  rw [startsWith, List.isPrefixOf_iff_prefix]
  exact ⟨fun ⟨text, h⟩ => ⟨text, h.symm⟩, fun ⟨text, h⟩ => ⟨text, h.symm⟩⟩

/-- A setting that may be made: a program only if none has been named. -/
def Setting.Allowed (options : MainOptions) (s : Setting) : Prop :=
  ∀ path, s = .program path → options.programPath = []

theorem allowed_of_ne {options : MainOptions} {s : Setting} (h : s.program? = none) :
    s.Allowed options := by
  rintro path rfl
  cases h

/-- Without a dash in front, an argument is a program. -/
theorem parseArg_program {options : MainOptions} {path : List Char} (h : path.head? ≠ some '-') :
    parseArg options path = if options.programPath = [] then
        .ok { options with programPath := path }
      else .error ⟨"only one program path may be provided"⟩ := by
  have hne : ∀ p : String, p.toList.head? = some '-' → path ≠ p.toList := by
    rintro p hp rfl
    exact h hp
  have hstart : ∀ p : String, p.toList.head? = some '-' → startsWith p path = false := by
    intro p hp
    rw [Bool.eq_false_iff]
    intro hpath
    obtain ⟨text, rfl⟩ := startsWith_iff.mp hpath
    rw [List.head?_append, hp] at h
    exact h rfl
  unfold parseArg
  simp only [hne "--help" rfl, hne "-h" rfl, hne "--trace" rfl, hne "--dump-regs" rfl,
    hne "--dump-written-memory" rfl, hstart "--trace-start=" rfl, hstart "--trace-limit=" rfl,
    hstart "--dump-state=" rfl, hstart "--state-memory=" rfl, hstart "--dump-memory=" rfl,
    hstart "--expect-memory=" rfl, hstart "--max-cycles=" rfl, hstart "--branch-predictor=" rfl,
    hstart "--load-address=" rfl, hstart "--memory-size=" rfl, hstart "--retire-count=" rfl, h,
    or_self, if_false, Bool.false_eq_true]
  rfl

/-- A setting is made, unless it is a second program. -/
theorem Means.parseArg {arg : List Char} {s : Setting} {options : MainOptions} (h : Means arg s)
    (hallowed : s.Allowed options) : RvPipeline.parseArg options arg = .ok (s.apply options) := by
  cases h with
  | help => rfl
  | shortHelp => rfl
  | trace => rfl
  | @traceStart text n h =>
    change (parseU64 text "--trace-start" >>= _) = _
    rw [parseU64_ok_iff.mpr h]
    rfl
  | @traceLimit text n h =>
    change (parseU64 text "--trace-limit" >>= _) = _
    rw [parseU64_ok_iff.mpr h]
    rfl
  | dumpRegs => rfl
  | dumpWrittenMemory => rfl
  | @dumpState path h =>
    change (if path = [] then _ else _) = _
    rw [if_neg h]
    rfl
  | @stateMemory text range h =>
    change (parseStateMemoryRange text >>= _) = _
    rw [parseStateMemoryRange_ok_iff.mpr h]
    rfl
  | @dumpMemory text range h =>
    change parseMemoryDumpRange text options = _
    exact parseMemoryDumpRange_ok_iff.mpr ⟨range, h, rfl⟩
  | @expectMemory text range h hword =>
    change parseMemoryExpectation text options = _
    exact parseMemoryExpectation_ok_iff.mpr ⟨range, ⟨h, hword⟩, rfl⟩
  | @maxCycles text n h =>
    change (parseU64 text "--max-cycles" >>= _) = _
    rw [parseU64_ok_iff.mpr h]
    rfl
  | branchPredictor type => cases type <;> rfl
  | @loadAddress text address h =>
    change (parseU64Auto text "--load-address" >>= _) = _
    rw [parseU64Auto_ok_iff.mpr h]
    change (if address.toNat > uint32Max then _ else _) = _
    rw [if_neg (toNat_le_uint32Max _), BitVec.ofNat_toNat]
    rfl
  | @memorySize text size h hpos =>
    change (parseU64Auto text "--memory-size" >>= _) = _
    rw [parseU64Auto_ok_iff.mpr h]
    change (if size.toNat = 0 ∨ size.toNat > uint32Max then _ else _) = _
    have hne : size.toNat ≠ 0 := fun hzero => hpos (BitVec.eq_of_toNat_eq hzero)
    rw [if_neg (not_or.mpr ⟨hne, toNat_le_uint32Max _⟩), BitVec.ofNat_toNat]
    rfl
  | @retireCount text n h =>
    change (parseU64 text "--retire-count" >>= _) = _
    rw [parseU64_ok_iff.mpr h]
    rfl
  | program h => rw [parseArg_program h, if_pos (hallowed _ rfl)]; rfl

theorem ite_cases {c : Prop} [Decidable c] {α : Type} {x y z : α} (h : (if c then x else y) = z) :
    (c ∧ x = z) ∨ (¬ c ∧ y = z) := by
  by_cases hc : c
  · exact .inl ⟨hc, (if_pos hc).symm.trans h⟩
  · exact .inr ⟨hc, (if_neg hc).symm.trans h⟩

/-- An accepted argument makes a setting. -/
theorem means_of_parseArg {arg : List Char} {options out : MainOptions}
    (h : parseArg options arg = .ok out) :
    ∃ s, Means arg s ∧ s.Allowed options ∧ out = s.apply options := by
  unfold parseArg at h
  rcases ite_cases h with ⟨harg, h⟩ | ⟨-, h⟩
  · cases h
    rcases harg with rfl | rfl
    · exact ⟨_, .help, allowed_of_ne rfl, rfl⟩
    · exact ⟨_, .shortHelp, allowed_of_ne rfl, rfl⟩
  rcases ite_cases h with ⟨rfl, h⟩ | ⟨-, h⟩
  · cases h
    exact ⟨_, .trace, allowed_of_ne rfl, rfl⟩
  rcases ite_cases h with ⟨harg, h⟩ | ⟨-, h⟩
  · obtain ⟨text, rfl⟩ := startsWith_iff.mp harg
    obtain ⟨n, hn, h⟩ := State.bind_eq_ok_iff.mp h
    cases h
    exact ⟨_, .traceStart (parseU64_ok_iff.mp hn), allowed_of_ne rfl, rfl⟩
  rcases ite_cases h with ⟨harg, h⟩ | ⟨-, h⟩
  · obtain ⟨text, rfl⟩ := startsWith_iff.mp harg
    obtain ⟨n, hn, h⟩ := State.bind_eq_ok_iff.mp h
    cases h
    exact ⟨_, .traceLimit (parseU64_ok_iff.mp hn), allowed_of_ne rfl, rfl⟩
  rcases ite_cases h with ⟨rfl, h⟩ | ⟨-, h⟩
  · cases h
    exact ⟨_, .dumpRegs, allowed_of_ne rfl, rfl⟩
  rcases ite_cases h with ⟨rfl, h⟩ | ⟨-, h⟩
  · cases h
    exact ⟨_, .dumpWrittenMemory, allowed_of_ne rfl, rfl⟩
  rcases ite_cases h with ⟨harg, h⟩ | ⟨-, h⟩
  · obtain ⟨path, rfl⟩ := startsWith_iff.mp harg
    rcases ite_cases h with ⟨-, h⟩ | ⟨hpath, h⟩
    · cases h
    · cases h
      exact ⟨_, .dumpState hpath, allowed_of_ne rfl, rfl⟩
  rcases ite_cases h with ⟨harg, h⟩ | ⟨-, h⟩
  · obtain ⟨text, rfl⟩ := startsWith_iff.mp harg
    obtain ⟨range, hrange, h⟩ := State.bind_eq_ok_iff.mp h
    cases h
    exact ⟨_, .stateMemory (parseStateMemoryRange_ok_iff.mp hrange), allowed_of_ne rfl, rfl⟩
  rcases ite_cases h with ⟨harg, h⟩ | ⟨-, h⟩
  · obtain ⟨text, rfl⟩ := startsWith_iff.mp harg
    obtain ⟨range, hrange, rfl⟩ := parseMemoryDumpRange_ok_iff.mp h
    exact ⟨_, .dumpMemory hrange, allowed_of_ne rfl, rfl⟩
  rcases ite_cases h with ⟨harg, h⟩ | ⟨-, h⟩
  · obtain ⟨text, rfl⟩ := startsWith_iff.mp harg
    obtain ⟨range, ⟨hrange, hword⟩, rfl⟩ := parseMemoryExpectation_ok_iff.mp h
    exact ⟨_, .expectMemory hrange hword, allowed_of_ne rfl, rfl⟩
  rcases ite_cases h with ⟨harg, h⟩ | ⟨-, h⟩
  · obtain ⟨text, rfl⟩ := startsWith_iff.mp harg
    obtain ⟨n, hn, h⟩ := State.bind_eq_ok_iff.mp h
    cases h
    exact ⟨_, .maxCycles (parseU64_ok_iff.mp hn), allowed_of_ne rfl, rfl⟩
  rcases ite_cases h with ⟨harg, h⟩ | ⟨-, h⟩
  · obtain ⟨text, rfl⟩ := startsWith_iff.mp harg
    obtain ⟨type, htype, h⟩ := State.bind_eq_ok_iff.mp h
    cases h
    obtain rfl : text = _ := parseBranchPredictorType_ok_iff.mp htype
    exact ⟨_, .branchPredictor type, allowed_of_ne rfl, rfl⟩
  rcases ite_cases h with ⟨harg, h⟩ | ⟨-, h⟩
  · obtain ⟨text, rfl⟩ := startsWith_iff.mp harg
    obtain ⟨n, hn, h⟩ := State.bind_eq_ok_iff.mp h
    rcases ite_cases h with ⟨-, h⟩ | ⟨hfits, h⟩
    · cases h
    · cases h
      have hn' := parseU64Auto_ok_iff.mp hn
      rw [← exists_word hfits] at hn'
      exact ⟨_, .loadAddress hn', allowed_of_ne rfl, rfl⟩
  rcases ite_cases h with ⟨harg, h⟩ | ⟨-, h⟩
  · obtain ⟨text, rfl⟩ := startsWith_iff.mp harg
    obtain ⟨n, hn, h⟩ := State.bind_eq_ok_iff.mp h
    rcases ite_cases h with ⟨-, h⟩ | ⟨hfits, h⟩
    · cases h
    · cases h
      obtain ⟨hzero, hfits⟩ := not_or.mp hfits
      have hn' := parseU64Auto_ok_iff.mp hn
      rw [← exists_word hfits] at hn' hzero
      exact ⟨_, .memorySize hn' fun h => hzero (congrArg BitVec.toNat h), allowed_of_ne rfl, rfl⟩
  rcases ite_cases h with ⟨harg, h⟩ | ⟨-, h⟩
  · obtain ⟨text, rfl⟩ := startsWith_iff.mp harg
    obtain ⟨n, hn, h⟩ := State.bind_eq_ok_iff.mp h
    cases h
    exact ⟨_, .retireCount (parseU64_ok_iff.mp hn), allowed_of_ne rfl, rfl⟩
  rcases ite_cases h with ⟨-, h⟩ | ⟨hdash, h⟩
  · cases h
  rcases ite_cases h with ⟨hnone, h⟩ | ⟨-, h⟩
  · cases h
    refine ⟨_, .program hdash, ?_, rfl⟩
    intro path hpath
    exact hnone
  · cases h

/-- **One argument** is accepted exactly if it means a setting that may be made. -/
theorem parseArg_ok_iff {arg : List Char} {options out : MainOptions} :
    parseArg options arg = .ok out ↔
      ∃ s, Means arg s ∧ s.Allowed options ∧ out = s.apply options := by
  constructor
  · exact means_of_parseArg
  · rintro ⟨s, hs, hallowed, rfl⟩
    exact hs.parseArg hallowed

/-! ## All arguments -/

section

variable {settings : List Setting} {s : Setting}

/-- Settings are made one after the other. -/
theorem optionsOf_snoc (settings : List Setting) (s : Setting) :
    optionsOf (settings ++ [s]) = s.apply (optionsOf settings) := by
  unfold optionsOf
  simp only [lastOf_snoc, List.filterMap_append, List.any_append]
  cases s <;> simp [Setting.apply, Setting.traceStart?, Setting.traceLimit?, Setting.dumpState?,
    Setting.stateMemory?, Setting.dumpMemory?, Setting.expectMemory?, Setting.maxCycles?,
    Setting.branchPredictor?, Setting.loadAddress?, Setting.memorySize?, Setting.retireCount?,
    Setting.program?, Setting.isHelp, Setting.isTrace, Setting.isDumpRegs,
    Setting.isDumpWrittenMemory]

/-- A list of values that are all empty but the last one. -/
theorem forall_nil_iff (paths : List (List Char)) :
    (∀ path ∈ paths, path = []) ↔
      (∀ path ∈ paths.dropLast, path = []) ∧ paths.getLast?.getD [] = [] := by
  induction paths using List.reverseRecOn with
  | nil => exact ⟨fun h => ⟨h, rfl⟩, fun h => h.1⟩
  | append_singleton paths path ih =>
    rw [List.forall_mem_append, List.forall_mem_singleton, List.dropLast_concat,
      List.getLast?_concat, Option.getD_some]

theorem oneProgram_snoc :
    OneProgram (settings ++ [s]) ↔ OneProgram settings ∧ s.Allowed (optionsOf settings) := by
  unfold OneProgram
  rw [List.filterMap_append]
  cases h : s.program? with
  | none =>
    rw [List.filterMap_cons_none h, List.filterMap_nil, List.append_nil,
      and_iff_left (allowed_of_ne h)]
  | some path =>
    rw [List.filterMap_cons_some h, List.filterMap_nil, List.dropLast_concat, forall_nil_iff]
    have hs : s = .program path := by
      cases s with
      | program path' => cases h; rfl
      | _ => cases h
    subst hs
    refine and_congr_right fun _ => ?_
    constructor
    · intro h path _
      exact h
    · exact fun h => h path rfl

theorem forall₂_snoc {α β : Type} {R : α → β → Prop} {l : List α} {l' : List β} {b : β}
    (h : List.Forall₂ R l (l' ++ [b])) :
    ∃ front a, l = front ++ [a] ∧ List.Forall₂ R front l' ∧ R a b := by
  have hlast := List.forall₂_drop_append l l' [b] h
  generalize hd : l.drop l'.length = last at hlast
  cases hlast with
  | @cons a _ rest _ ha hrest =>
    cases hrest
    refine ⟨l.take l'.length, a, ?_, List.forall₂_take_append l l' [b] h, ha⟩
    rw [← hd, List.take_append_drop]

theorem foldlM_parseArg_singleton (options : MainOptions) (arg : List Char) :
    [arg].foldlM parseArg options = parseArg options arg := bind_pure _

/-- **All arguments** are accepted exactly if they mean settings with one program at most. -/
theorem parseArgs_ok_iff {args : List (List Char)} {options : MainOptions} :
    args.foldlM parseArg {} = .ok options ↔
      ∃ settings, List.Forall₂ Means args settings ∧ OneProgram settings ∧
        options = optionsOf settings := by
  constructor
  · intro h
    induction args using List.reverseRecOn generalizing options with
    | nil =>
      cases h
      exact ⟨[], .nil, fun path hpath => absurd hpath List.not_mem_nil, rfl⟩
    | append_singleton args arg ih =>
      rw [List.foldlM_append] at h
      obtain ⟨options', hargs, harg⟩ := State.bind_eq_ok_iff.mp h
      obtain ⟨settings, hmeans, hone, rfl⟩ := ih hargs
      rw [foldlM_parseArg_singleton] at harg
      obtain ⟨s, hs, hallowed, rfl⟩ := parseArg_ok_iff.mp harg
      exact ⟨settings ++ [s], List.rel_append hmeans (.cons hs .nil),
        oneProgram_snoc.mpr ⟨hone, hallowed⟩, (optionsOf_snoc settings s).symm⟩
  · rintro ⟨settings, hmeans, hone, rfl⟩
    induction settings using List.reverseRecOn generalizing args with
    | nil =>
      cases hmeans
      rfl
    | append_singleton settings s ih =>
      obtain ⟨args, arg, rfl, hmeans, hs⟩ := forall₂_snoc hmeans
      obtain ⟨hone, hallowed⟩ := oneProgram_snoc.mp hone
      rw [List.foldlM_append, optionsOf_snoc]
      refine State.bind_eq_ok_iff.mpr ⟨_, ih hmeans hone, ?_⟩
      rw [foldlM_parseArg_singleton]
      exact hs.parseArg hallowed

theorem parseArgs_of_parseCli {args : List (List Char)} {options : MainOptions}
    (h : parseCli args = .ok options) : args.foldlM parseArg {} = .ok options := by
  unfold parseCli at h
  obtain ⟨options', hargs, hcheck⟩ := State.bind_eq_ok_iff.mp h
  rcases ite_cases hcheck with ⟨-, hthrow⟩ | ⟨-, hreturn⟩
  · cases hthrow
  · cases hreturn
    exact hargs

theorem Means.maxCycles_lt {arg : List Char} {s : Setting} {options : MainOptions}
    (h : Means arg s) (hlt : options.maxCycles < 2 ^ 64) :
    (s.apply options).maxCycles < 2 ^ 64 := by
  cases h with
  | maxCycles h => exact h.lt
  | _ => exact hlt

theorem optionsOf_maxCycles_lt {args : List (List Char)} (h : List.Forall₂ Means args settings) :
    (optionsOf settings).maxCycles < 2 ^ 64 := by
  induction settings using List.reverseRecOn generalizing args with
  | nil => decide
  | append_singleton settings s ih =>
    obtain ⟨args, arg, -, hmeans, hs⟩ := forall₂_snoc h
    rw [optionsOf_snoc]
    exact hs.maxCycles_lt (ih hmeans)

/-- The bound on the cycles is a `uint64_t`. -/
theorem maxCycles_lt {args : List (List Char)} {options : MainOptions}
    (h : parseCli args = .ok options) : options.maxCycles < 2 ^ 64 := by
  obtain ⟨settings, hmeans, -, rfl⟩ := parseArgs_ok_iff.mp (parseArgs_of_parseCli h)
  exact optionsOf_maxCycles_lt hmeans

/-- What the check at the end of `parse_cli` asks for. -/
def NeedsFile (settings : List Setting) : Prop :=
  settings.filterMap Setting.stateMemory? ≠ [] → settings.filterMap Setting.dumpState? ≠ []

/-- The paths of an accepted command line are not empty, so the last one is not. -/
theorem dumpStatePath_eq_nil_iff {args : List (List Char)} (h : List.Forall₂ Means args settings) :
    (optionsOf settings).dumpStatePath = [] ↔ settings.filterMap Setting.dumpState? = [] := by
  have hne : ∀ path ∈ settings.filterMap Setting.dumpState?, path ≠ [] := by
    induction h with
    | nil => exact fun path hpath => absurd hpath List.not_mem_nil
    | @cons arg s args settings hs _ ih =>
      cases hpath : s.dumpState? with
      | none =>
        rw [List.filterMap_cons_none hpath]
        exact ih
      | some path =>
        rw [List.filterMap_cons_some hpath]
        refine List.forall_mem_cons.mpr ⟨?_, ih⟩
        cases hs with
        | dumpState hne => cases hpath; exact hne
        | _ => cases hpath
  change (settings.filterMap Setting.dumpState?).getLast?.getD [] = [] ↔ _
  constructor
  · intro hlast
    by_contra hpaths
    rw [List.getLast?_eq_some_getLast hpaths, Option.getD_some] at hlast
    exact hne _ (List.getLast_mem hpaths) hlast
  · intro hpaths
    rw [hpaths]
    rfl

/-- **The accepted command lines, and their options**: every argument means a setting, at most
    one program is named, and exported ranges come with a file. The options are then
    those of the settings. -/
theorem parse_cli_accepts {args : List (List Char)} {options : MainOptions} :
    parseCli args = .ok options ↔
      ∃ settings, List.Forall₂ Means args settings ∧ OneProgram settings ∧ NeedsFile settings ∧
        options = optionsOf settings := by
  unfold parseCli
  rw [State.bind_eq_ok_iff]
  constructor
  · rintro ⟨options', hargs, h⟩
    obtain ⟨settings, hmeans, hone, rfl⟩ := parseArgs_ok_iff.mp hargs
    rcases ite_cases h with ⟨-, h⟩ | ⟨hfile, h⟩
    · cases h
    · cases h
      refine ⟨settings, hmeans, hone, fun hranges hpaths => hfile ⟨hranges, ?_⟩, rfl⟩
      exact (dumpStatePath_eq_nil_iff hmeans).mpr hpaths
  · rintro ⟨settings, hmeans, hone, hfile, rfl⟩
    refine ⟨_, parseArgs_ok_iff.mpr ⟨settings, hmeans, hone, rfl⟩, if_neg ?_⟩
    rintro ⟨hranges, hpath⟩
    exact hfile hranges ((dumpStatePath_eq_nil_iff hmeans).mp hpath)

end

/-! ## The order of the arguments -/

/-- The kind of an argument: an option up to its value; the empty text for a program. -/
def kindOf (arg : List Char) : List Char :=
  if arg.head? = some '-' then arg.takeWhile (· ≠ '=') else []

/-- The option that makes a setting, without its value. -/
def Setting.kind : Setting → String
  | .help => "--help"
  | .trace => "--trace"
  | .traceStart _ => "--trace-start"
  | .traceLimit _ => "--trace-limit"
  | .dumpRegs => "--dump-regs"
  | .dumpWrittenMemory => "--dump-written-memory"
  | .dumpState _ => "--dump-state"
  | .stateMemory _ => "--state-memory"
  | .dumpMemory _ => "--dump-memory"
  | .expectMemory _ => "--expect-memory"
  | .maxCycles _ => "--max-cycles"
  | .branchPredictor _ => "--branch-predictor"
  | .loadAddress _ => "--load-address"
  | .memorySize _ => "--memory-size"
  | .retireCount _ => "--retire-count"
  | .program _ => ""

/-- Only help has two spellings. -/
theorem Means.kindOf {arg : List Char} {s : Setting} (h : Means arg s) :
    s = .help ∨ RvPipeline.kindOf arg = s.kind.toList := by
  cases h with
  | help => exact .inl rfl
  | shortHelp => exact .inl rfl
  | program h => exact .inr (if_neg h)
  | _ => exact .inr (by simp [RvPipeline.kindOf, Setting.kind])

theorem Setting.apply_comm {s t : Setting} (h : s = .help ∨ t = .help ∨ s.kind ≠ t.kind)
    (options : MainOptions) : t.apply (s.apply options) = s.apply (t.apply options) := by
  rcases h with rfl | rfl | h
  · cases t <;> rfl
  · cases s <;> rfl
  · cases s <;> cases t <;> first | rfl | exact absurd rfl h

theorem Setting.apply_programPath {s : Setting} (h : s.program? = none) (options : MainOptions) :
    (s.apply options).programPath = options.programPath := by
  cases s with
  | program path => cases h
  | _ => rfl

/-- Arguments of different kinds commute. -/
theorem parseArg_commute {a b : List Char} (hkind : kindOf a ≠ kindOf b) :
    State.Commute parseArg a b := by
  intro o u t ha hb
  obtain ⟨s, hs, hsallowed, rfl⟩ := parseArg_ok_iff.mp ha
  obtain ⟨s', hs', hsallowed', rfl⟩ := parseArg_ok_iff.mp hb
  have hne : s = .help ∨ s' = .help ∨ s.kind ≠ s'.kind := by
    rcases hs.kindOf with h | h
    · exact .inl h
    · rcases hs'.kindOf with h' | h'
      · exact .inr (.inl h')
      · refine .inr (.inr fun heq => hkind ?_)
        rw [h, h', heq]
  -- at most one of the two names a program
  have hprogram : s.program? = none ∨ s'.program? = none := by
    cases s with
    | program path =>
      cases s' with
      | program path' =>
        rcases hne with h | h | h
        · cases h
        · cases h
        · exact absurd rfl h
      | _ => exact .inr rfl
    | _ => exact .inl rfl
  have hs'o : s'.Allowed o := by
    rcases hprogram with h | h
    · intro path hpath
      rw [← hsallowed' path hpath, Setting.apply_programPath h]
    · exact allowed_of_ne h
  refine ⟨s'.apply o, hs'.parseArg hs'o, ?_⟩
  rw [Setting.apply_comm hne]
  refine hs.parseArg ?_
  rcases hprogram with h | h
  · exact allowed_of_ne h
  · intro path hpath
    rw [Setting.apply_programPath h]
    exact hsallowed path hpath

/-- **Options of different kinds commute**: only the order of arguments of one kind counts
    for whether a command line is accepted and what it sets. -/
theorem parse_cli_interleaves {args args' : List (List Char)}
    (h : ∀ k, args.filter (kindOf · = k) = args'.filter (kindOf · = k)) (options : MainOptions) :
    parseCli args = .ok options ↔ parseCli args' = .ok options := by
  unfold parseCli
  rw [State.bind_eq_ok_iff, State.bind_eq_ok_iff]
  refine exists_congr fun options' => and_congr_left fun _ => ?_
  exact State.foldlM_ok_iff_of_filter_eq (fun a b => parseArg_commute) h

/-- Two arguments of different kinds, in either order. -/
theorem filter_pair_comm {a b : List Char} (hne : kindOf a ≠ kindOf b) (k : List Char) :
    [a, b].filter (kindOf · = k) = [b, a].filter (kindOf · = k) := by
  by_cases ha : kindOf a = k
  · have hb : kindOf b ≠ k := fun hb => hne (ha.trans hb.symm)
    simp only [List.filter_cons, ha, hb, decide_true, decide_false, if_true, List.filter_nil,
      Bool.false_eq_true, if_false]
  · simp only [List.filter_cons, ha, decide_false, Bool.false_eq_true, if_false, List.filter_nil]

theorem traceInFront_interleaves :
    parseCli ["--max-cycles=5".toList, "--trace".toList] = .ok { maxCycles := 5, trace := true } :=
  (parse_cli_interleaves (filter_pair_comm (by decide)) _).mp (by decide +kernel)

end RvPipeline
